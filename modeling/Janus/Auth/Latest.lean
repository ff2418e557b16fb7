import Janus.Auth.Issue

/-!
# Auth/Latest — of the links and codes asked for, one is left

    before ──insert──▸ issued h u ──spend all but h──▸ done h u

Whoever retires last leaves its own token alone: of one kind and one user, every token unspent is
that one, or belongs to a flow that inserted and has yet to retire (`Retiring.latest`).
-/

namespace Janus.Auth

open Js Insertion Calls

/-! ## The flows -/

/-- The flows that issue a token and retire the others of its kind. -/
inductive IssueFlow where
  | signInCode (type : ResolvedType) (email : Str) (at_ : At)
  | magicLink (type : ResolvedType) (email : Str) (at_ : At)
  | resetPassword (type : ResolvedType) (email : Str) (at_ : At)
  | changeEmail (type : ResolvedType) (user : UserRef) (email : Str) (at_ : At)
  | stepUp (type : ResolvedType) (user : UserRef) (at_ : At)

def IssueFlow.kind : IssueFlow → TokenKind
  | .signInCode .. => .signInCode
  | .magicLink .. => .magicLink
  | .resetPassword .. => .resetPassword
  | .changeEmail .. => .changeEmail
  | .stepUp .. => .stepUp

theorem IssueFlow.kind_ne (f : IssueFlow) : f.kind ≠ .secondFactor := by
  cases f <;> nofun

def IssueFlow.code (ctx : Context) : IssueFlow → Flow (Option IssuedToken)
  | .signInCode type email at_ => requestSignInCode ctx type email at_
  | .magicLink type email at_ => requestLink ctx type email at_
  | .resetPassword type email at_ => requestReset ctx type email at_
  | .changeEmail type user email at_ => some <$> sendChangeEmail ctx type user email at_
  | .stepUp type user at_ => some <$> requestStepUp ctx type user at_

/-- Any number of them, over one store. -/
def issueService (ctx : Context) :
    Service Call Answer World Drift IssueFlow Failure (Option IssuedToken) where
  exec := exec
  drift := drift
  code := IssueFlow.code ctx

/-- The log of such a run. -/
abbrev IssueLog := List (Entry Call Answer IssueFlow Failure (Option IssuedToken))

/-! ## Their phases -/

namespace Latest

/-- What a flow has drawn, or the token it inserted, of which user, and whether it retired the
others. -/
inductive Phase where
  | before (drawn : List ℕ)
  | issued (hash userId : Str)
  | done (hash userId : Str)

def Phase.answered : Phase → (c : Call) → Answer c → Phase
  | .before drawn, .draw, n => .before (n :: drawn)
  | p, _, _ => p

/-- A call that issues no token and spends none: a count's links are named by keyed hashes. -/
def Aside (ctx : Context) : Call → Prop
  | .insertToken record => record.kind = .secondFactor ∧ ∃ key text,
    record.tokenHash = ctx.runtime.sha256 (ctx.runtime.toBase64url (ctx.runtime.hmacSha256 key text))
  | .consumeToken .. | .spendUserTokens .. => False
  | _ => True

/-- The hash of a secret drawn. -/
def hashOf (ctx : Context) (n : ℕ) : Str := hashSecret ctx (ctx.runtime.secret n)

inductive Step (ctx : Context) (f : IssueFlow) : Phase → (c : Call) → Answer c → Phase → Prop
  | aside {p c r} (h : Aside ctx c) : Step ctx f p c r (p.answered c r)
  | issue {drawn n record} (mem : n ∈ drawn) (hash : record.tokenHash = hashOf ctx n)
    (kind : record.kind = f.kind) (unspent : record.spentAt = none) :
    Step ctx f (.before drawn) (.insertToken record) () (.issued record.tokenHash record.userId)
  | retire {hash userId at_ r} :
    Step ctx f (.issued hash userId) (.spendUserTokens userId f.kind at_ (some hash)) r
      (.done hash userId)

/-- A flow that answers a token retired the others; any other end issued none. -/
def Final (ctx : Context) : Except Failure (Option IssuedToken) → Phase → Prop
  | .ok (some issued), p => ∃ userId, p = .done (hashSecret ctx issued.secret) userId
  | _, p => ∃ drawn, p = .before drawn

/-! ### What each flow leads to -/

section Leads

variable {ctx : Context} {f : IssueFlow} {α β : Type} {drawn : List ℕ} {type : ResolvedType}
  {where_ : Str} {Q : β → Phase → Prop} {Z : Failure → Phase → Prop}

/-- A flow that issues and spends nothing. -/
abbrev Only (ctx : Context) {α : Type} (x : Flow α) :
    Prop := Calls.Only (Aside ctx) (fun _ => True) x

/-- Nothing issued yet, and at least this drawn. -/
def Waits (drawn : List ℕ) (p : Phase) : Prop := ∃ drawn', p = .before drawn' ∧ drawn ⊆ drawn'

theorem Waits.refl : Waits drawn (.before drawn) := ⟨_, rfl, List.Subset.refl _⟩

theorem Waits.answered {p : Phase} (h : Waits drawn p) (c : Call) (r : Answer c) :
    Waits drawn (p.answered c r) := by
  obtain ⟨drawn', rfl, hsub⟩ := h
  cases c
  case draw => exact ⟨_, rfl, List.subset_cons_of_subset _ hsub⟩
  all_goals exact ⟨_, rfl, hsub⟩

theorem Waits.final {p : Phase} (h : Waits drawn p) (ctx : Context) : Final ctx (.ok none) p :=
  ⟨_, h.choose_spec.1⟩

theorem Waits.failed {p : Phase} (h : Waits drawn p) (ctx : Context) (e : Failure) :
    Final ctx (.error e) p :=
  ⟨_, h.choose_spec.1⟩

/-- Such a flow, and another after it. -/
theorem leads_bind {x : Flow α} {k : α → Flow β} {p : Phase} (hx : Only ctx x) (hp : Waits drawn p)
    (hk : ∀ a p', Waits drawn p' → Leads exec (Step ctx f) p' (k a) Q Z)
    (hZ : ∀ e p', Waits drawn p' → Z e p') : Leads exec (Step ctx f) p (x >>= k) Q Z :=
  Leads.bind ((Leads.of_only (J := Waits drawn)
    (fun _ c r hp hc => ⟨_, .aside hc, hp.answered c r⟩) hx hp).mono hk fun e p' h => hZ e p' h.2)

/-- One such call. -/
theorem only_call {c : Call} (h : Aside ctx c) : Only ctx (call c) := Only.perform h

theorem only_done {r : Except Failure α} : Only ctx (Prog.done r) := Only.done fun _ _ => trivial

theorem only_countMail {flow : MailFlow} {counted : MailCounted} :
    Only ctx (countMail ctx type flow counted where_) := by
  rw [countMail]
  split
  · trivial
  · refine Only.bind ?_ fun count => ?_
    · exact only_countInWindow trivial (fun _ _ => trivial) (fun _ _ => ⟨rfl, _, _, rfl⟩) trivial
    · split
      · trivial
      · exact Only.bind (only_call trivial) fun _ => trivial

theorem only_holderOfEmail {email : Str} : Only ctx (holderOfEmail ctx type email) := by
  rw [holderOfEmail]
  split
  · exact Only.bind (only_call trivial) fun _ => trivial
  · trivial

theorem only_signInHolder {email : Str} : Only ctx (signInHolder ctx type email) :=
  Only.bind only_holderOfEmail fun _ => trivial

theorem only_getRecord {id : Str} {name : Option Str} : Only ctx (getRecord id name where_) := by
  refine Only.bind ?_ fun record => ?_
  · rw [findRecord]
    split
    · exact Only.bind (only_call trivial) fun _ => trivial
    · trivial
  · cases record <;> trivial

theorem only_drawCode : Only ctx (drawCode ctx) := Only.bind (only_call trivial) fun _ => trivial

/-- A token inserted, under a secret drawn before or now. -/
theorem leads_insertOneTime {token : OneTimeRequest} {code boundHash : Option Str} {p : Phase}
    (hp : Waits drawn p) (hkind : token.kind = f.kind)
    (hsecret : ∀ secret, token.secret = some secret → ∃ n ∈ drawn, secret = ctx.runtime.secret n) :
    Leads exec (Step ctx f) p (insertOneTime ctx token code boundHash)
      (fun issued p' => p' = .issued (hashSecret ctx issued.1) token.userId ∧
        ∀ secret, token.secret = some secret → issued.1 = secret) Z := by
  have hinsert : ∀ {p' : Phase} {secret : Str} {now : Time} {drawn' : List ℕ} {n : ℕ}
      {codeHash : Option Str}, Waits drawn' p' → n ∈ drawn' → secret = ctx.runtime.secret n →
      Leads exec (Step ctx f) p' (do
        call <| .insertToken
          { tokenHash := hashSecret ctx secret, kind := token.kind, userId := token.userId,
            address := token.address, codeHash := codeHash,
            attempts := 0, expiresAt := now + token.ttlMs, spentAt := none, createdAt := now }
        pure (secret, now + token.ttlMs))
      (fun issued p' => p' = .issued (hashSecret ctx issued.1) token.userId ∧
        issued.1 = secret) Z := by
    rintro _ _ now drawn' n _ ⟨drawn'', rfl, hsub⟩ hn rfl
    exact Leads.bind (Leads.perform fun w r _ =>
      ⟨_, .issue (hsub hn) rfl hkind rfl, rfl, rfl⟩)
  obtain ⟨drawn', rfl, hsub⟩ := hp
  refine Leads.bind (Leads.perform fun w now _ => ⟨_, .aside trivial, ?_⟩)
  cases hs : token.secret with
  | none =>
    refine Leads.bind (Leads.bind (Leads.perform fun w n _ => ⟨_, .aside trivial, ?_⟩))
    exact (hinsert Waits.refl List.mem_cons_self rfl).mono (fun _ _ h => ⟨h.1, by simp⟩)
      fun _ _ h => h
  | some secret =>
    obtain ⟨n, hn, rfl⟩ := hsecret secret hs
    refine (hinsert Waits.refl (hsub hn) rfl).mono (fun _ _ h => ⟨h.1, ?_⟩) fun _ _ h => h
    rintro _ ⟨⟩
    exact h.2

theorem leads_issueCode {token : OneTimeRequest} {p : Phase} (hp : Waits drawn p)
    (hkind : token.kind = f.kind)
    (hsecret : ∀ secret, token.secret = some secret → ∃ n ∈ drawn, secret = ctx.runtime.secret n)
    (hZ : ∀ e p', Waits drawn p' → Z e p') :
    Leads exec (Step ctx f) p (issueCode ctx token)
      (fun issued p' => p' = .issued (hashSecret ctx issued.1.1) token.userId) Z :=
  leads_bind only_drawCode hp (fun _ _ hp => Leads.bind ((leads_insertOneTime hp hkind hsecret).mono
    (fun _ _ h => h.1) fun _ _ h => h)) hZ

/-- The others of its kind, retired, and an answer. -/
theorem leads_retire {kind : TokenKind} {userId secret : Str} {a : β} (hf : f.kind = kind)
    (hQ : Q a (.done (hashSecret ctx secret) userId)) :
    Leads exec (Step ctx f) (.issued (hashSecret ctx secret) userId)
      (do keepOnlyLatest ctx userId kind secret; pure a) Q Z := by
  subst hf
  refine Leads.bind (Leads.bind (Leads.perform fun _ _ _ => ⟨_, .aside trivial, ?_⟩))
  exact Leads.bind (Leads.perform fun _ _ _ => ⟨_, .retire, hQ⟩)

/-- What such a flow does to the end. -/
abbrev Follows (ctx : Context) (f : IssueFlow) (p : Phase) (x : Flow (Option IssuedToken)) : Prop :=
  Leads exec (Step ctx f) p x (fun a => Final ctx (.ok a)) (fun e => Final ctx (.error e))

/-- …and of one that always answers a token. -/
abbrev Gives (ctx : Context) (f : IssueFlow) (p : Phase) (x : Flow IssuedToken) : Prop :=
  Leads exec (Step ctx f) p x (fun issued => Final ctx (.ok (some issued)))
    (fun e => Final ctx (.error e))

/-- What is handed out was inserted, for this user. -/
def IssuedFor (ctx : Context) (userId : Str) (issued : IssuedToken) (p : Phase) : Prop :=
  p = .issued (hashSecret ctx issued.secret) userId

theorem leads_issueSignInCode {email challenge : Str} {p : Phase} {n : ℕ} (hp : Waits [n] p)
    (hchallenge : challenge = ctx.runtime.secret n) (hf : f.kind = .signInCode) :
    Follows ctx f p (issueSignInCode ctx type email challenge) := by
  refine leads_bind only_signInHolder hp (fun record p hp => ?_) fun e _ hp => hp.failed ctx e
  cases record with
  | none => exact hp.final ctx
  | some record =>
    refine Leads.bind ((leads_issueCode hp hf.symm ?_ fun e _ hp => hp.failed ctx e).mono ?_
      fun _ _ h => h)
    · rintro _ ⟨⟩
      exact ⟨n, List.mem_singleton_self n, hchallenge⟩
    · rintro ⟨⟨secret, expiresAt⟩, code⟩ p rfl
      exact leads_retire hf ⟨_, rfl⟩

theorem leads_requestSignInCode {email : Str} {at_ : At} (hf : f.kind = .signInCode) :
    Follows ctx f (.before []) (requestSignInCode ctx type email at_) := by
  refine leads_bind only_countMail Waits.refl (fun _ p hp => ?_) fun e _ hp => hp.failed ctx e
  obtain ⟨drawn, rfl, -⟩ := hp
  refine Leads.bind (Leads.bind (Leads.perform fun w n _ => ⟨_, .aside trivial, ?_⟩))
  exact leads_issueSignInCode ⟨_, rfl, List.cons_subset_cons n (List.nil_subset drawn)⟩ rfl hf

theorem leads_requestLink {email : Str} {at_ : At} (hf : f.kind = .magicLink) :
    Follows ctx f (.before []) (requestLink ctx type email at_) := by
  refine leads_bind only_countMail Waits.refl (fun _ p hp => ?_) fun e _ hp => hp.failed ctx e
  refine leads_bind only_signInHolder hp (fun record p hp => ?_) fun e _ hp => hp.failed ctx e
  cases record with
  | none => exact hp.final ctx
  | some record =>
    refine Leads.bind ((leads_insertOneTime hp hf.symm (by nofun)).mono ?_ fun _ _ h => h)
    rintro ⟨secret, expiresAt⟩ p ⟨rfl, -⟩
    exact leads_retire hf ⟨_, rfl⟩

theorem leads_issueEmailToken {kind : TokenKind} {user : UserRecord} {p : Phase}
    (hp : Waits drawn p)
    (hkind : kind = f.kind) (hZ : ∀ e p', Waits drawn p' → Z e p') :
    Leads exec (Step ctx f) p (issueEmailToken ctx type kind user where_)
      (IssuedFor ctx user.id) Z := by
  rw [issueEmailToken]
  split
  · exact hZ _ p hp
  · exact Leads.bind ((leads_insertOneTime hp hkind (by nofun)).mono (fun _ _ h => h.1) fun _ _ h => h)

theorem leads_requestReset {email : Str} {at_ : At} (hf : f.kind = .resetPassword) :
    Follows ctx f (.before []) (requestReset ctx type email at_) := by
  refine leads_bind only_done Waits.refl (fun _ p hp => ?_) fun e _ hp => hp.failed ctx e
  refine leads_bind only_countMail hp (fun _ p hp => ?_) fun e _ hp => hp.failed ctx e
  refine leads_bind only_holderOfEmail hp (fun record p hp => ?_) fun e _ hp => hp.failed ctx e
  cases record with
  | none => exact hp.final ctx
  | some record =>
    refine Leads.bind ((leads_issueEmailToken hp hf.symm fun e _ hp => hp.failed ctx e).mono ?_
      fun _ _ h => h)
    rintro issued p rfl
    exact leads_retire hf ⟨_, rfl⟩

theorem leads_issueChangeEmailToken {user : UserRecord} {address : Str} {p : Phase}
    (hp : Waits drawn p) (hf : f.kind = .changeEmail) :
    Gives ctx f p (issueChangeEmailToken ctx type user address) := by
  obtain ⟨drawn', rfl, -⟩ := hp
  refine Leads.bind (Leads.bind (Leads.perform fun w n _ => ⟨_, .aside trivial, ?_⟩))
  refine Leads.bind ((leads_insertOneTime Waits.refl hf.symm ?_).mono ?_ fun _ _ h => h)
  · rintro _ ⟨⟩
    exact ⟨n, List.mem_cons_self, rfl⟩
  · rintro ⟨secret, expiresAt⟩ p ⟨rfl, hsecret⟩
    rw [hsecret _ rfl]
    exact leads_retire hf ⟨_, rfl⟩

theorem leads_sendChangeEmail {user : UserRef} {email : Str} {at_ : At}
    (hf : f.kind = .changeEmail) :
    Gives ctx f (.before []) (sendChangeEmail ctx type user email at_) := by
  refine leads_bind only_getRecord Waits.refl (fun record p hp => ?_) fun e _ hp => hp.failed ctx e
  split
  case isTrue => exact ⟨_, hp.choose_spec.1⟩
  case isFalse =>
    refine leads_bind only_done hp (fun _ p hp => ?_) fun e _ hp => hp.failed ctx e
    refine leads_bind only_countMail hp (fun _ p hp => ?_) fun e _ hp => hp.failed ctx e
    refine leads_bind only_countMail hp (fun _ p hp => ?_) fun e _ hp => hp.failed ctx e
    exact leads_issueChangeEmailToken hp hf

theorem leads_stepUpByApp {record : UserRecord} {p : Phase} (hp : Waits drawn p)
    (hf : f.kind = .stepUp) (hZ : ∀ e p', Waits drawn p' → Z e p') :
    Leads exec (Step ctx f) p (stepUpByApp ctx record where_) (IssuedFor ctx record.id) Z := by
  refine leads_bind only_done hp (fun _ p hp => ?_) hZ
  exact Leads.bind ((leads_insertOneTime hp hf.symm (by nofun)).mono (fun _ _ h => h.1) fun _ _ h => h)

theorem leads_stepUpByEmail {record : UserRecord} {p : Phase} (hp : Waits drawn p)
    (hf : f.kind = .stepUp) (hZ : ∀ e p', Waits drawn p' → Z e p') :
    Leads exec (Step ctx f) p (stepUpByEmail ctx type record where_)
      (IssuedFor ctx record.id) Z := by
  rw [stepUpByEmail]
  split
  · exact hZ _ p hp
  · refine leads_bind only_countMail hp (fun _ p hp => ?_) hZ
    exact Leads.bind ((leads_issueCode hp hf.symm (by nofun) hZ).mono (fun _ _ h => h) fun _ _ h => h)

theorem leads_requestStepUp {user : UserRef} {at_ : At} (hf : f.kind = .stepUp) :
    Gives ctx f (.before []) (requestStepUp ctx type user at_) := by
  refine leads_bind only_getRecord Waits.refl (fun record p hp => ?_) fun e _ hp => hp.failed ctx e
  split
  case isTrue => exact ⟨_, hp.choose_spec.1⟩
  case isFalse =>
    refine Leads.bind (Leads.mono (Q := IssuedFor ctx record.id) ?_ ?_ fun _ _ h => h)
    · split
      · exact leads_stepUpByApp hp hf fun e _ hp => hp.failed ctx e
      · exact leads_stepUpByEmail hp hf fun e _ hp => hp.failed ctx e
    · rintro issued p rfl
      exact leads_retire hf ⟨_, rfl⟩

/-- **A flow inserts its token, retires the others, and only then answers it.** -/
theorem follows (ctx : Context) (f : IssueFlow) : Follows ctx f (.before []) (f.code ctx) := by
  cases f with
  | signInCode type email at_ => exact leads_requestSignInCode rfl
  | magicLink type email at_ => exact leads_requestLink rfl
  | resetPassword type email at_ => exact leads_requestReset rfl
  | changeEmail type user email at_ => exact Leads.map (leads_sendChangeEmail rfl)
  | stepUp type user at_ => exact Leads.map (leads_requestStepUp rfl)

end Leads

/-- The phases of any number of them. -/
def protocol (ctx : Context) : Protocol (issueService ctx) where
  Phase := Phase
  start _ := .before []
  Step := Step ctx
  Final _ := Final ctx
  follows := follows ctx

/-! ## What each call leaves of the tokens -/

/-- The same token, its attempts apart. -/
def Same (t t' : TokenRecord) : Prop :=
  t'.tokenHash = t.tokenHash ∧ t'.kind = t.kind ∧ t'.userId = t.userId ∧ t'.spentAt = t.spentAt

theorem same_counted (t : TokenRecord) : Same t t.counted := by
  rw [TokenRecord.counted]
  split <;> exact ⟨rfl, rfl, rfl, rfl⟩

section Tokens

variable {ctx : Context} {w w' : World} {c : Call} {r : Answer c}

/-- A call aside leaves every token, but for its attempts, and may link a count. -/
theorem exec_aside (hexec : exec c w = (r, w')) (h : Aside ctx c) (hash : Str) :
    (∀ t, get w.tokens hash = some t → ∃ t', get w'.tokens hash = some t' ∧ Same t t') ∧
    ∀ t', get w'.tokens hash = some t' → (∃ t, get w.tokens hash = some t ∧ Same t t') ∨
      (t'.tokenHash = hash ∧ t'.kind = .secondFactor ∧ ∀ n, hash ≠ hashOf ctx n) := by
  obtain rfl : (exec c w).2 = w' := congrArg Prod.snd hexec
  cases c with
  | insertToken record =>
    obtain ⟨hkind, key, text, hhash⟩ := h
    dsimp only [exec]
    rw [get_insertToken]
    by_cases e : record.tokenHash = hash
    · rw [if_pos e]
      refine ⟨fun t ht => ⟨t, by rw [ht, Option.getD_some], rfl, rfl, rfl, rfl⟩, fun t' ht' => ?_⟩
      cases hold : get w.tokens hash with
      | some t =>
        rw [hold] at ht'
        cases ht'
        exact Or.inl ⟨_, rfl, rfl, rfl, rfl, rfl⟩
      | none =>
        rw [hold] at ht'
        cases ht'
        refine Or.inr ⟨e, hkind, fun n hn => ?_⟩
        exact ctx.runtime.secret_ne_keyed n key text
          (ctx.runtime.sha256_injective (hn.symm.trans (e.symm.trans hhash)))
    · rw [if_neg e]
      exact ⟨fun t ht => ⟨t, ht, rfl, rfl, rfl, rfl⟩,
        fun t' ht' => Or.inl ⟨t', ht', rfl, rfl, rfl, rfl⟩⟩
  | countAttempt tokenHash kind =>
    dsimp only [exec, countAttempt]
    rw [get_writeToken]
    have hsame : ∀ t, Same t (if tokenHash = hash ∧ t.kind = kind then t.counted else t) :=
      fun t => by
      split
      · exact same_counted t
      · exact ⟨rfl, rfl, rfl, rfl⟩
    refine ⟨fun t ht => ⟨_, by rw [ht, Option.map_some], hsame t⟩, fun t' ht' => ?_⟩
    obtain ⟨t, ht, rfl⟩ := Option.map_eq_some_iff.mp ht'
    exact Or.inl ⟨t, ht, hsame t⟩
  | consumeToken => exact h.elim
  | spendUserTokens => exact h.elim
  | _ =>
    exact ⟨fun t ht => ⟨t, ht, rfl, rfl, rfl, rfl⟩, fun t' ht' => Or.inl ⟨t', ht', rfl, rfl, rfl, rfl⟩⟩

/-- Drawing aside, a call aside draws nothing, and a draw gives the next number. -/
theorem exec_aside_draws (hexec : exec c w = (r, w')) :
    w.draws ≤ w'.draws ∧ ∀ drawn drawn', (Phase.before drawn).answered c r = .before drawn' →
      ∀ n ∈ drawn', n ∈ drawn ∨ n = w.draws ∧ n < w'.draws := by
  obtain rfl : (exec c w).1 = r := congrArg Prod.fst hexec
  obtain rfl : (exec c w).2 = w' := congrArg Prod.snd hexec
  cases c
  case draw =>
    refine ⟨Nat.le_succ _, ?_⟩
    rintro drawn _ ⟨⟩ n hn
    rcases List.mem_cons.mp hn with rfl | hn
    · exact Or.inr ⟨rfl, Nat.lt_succ_self _⟩
    · exact Or.inl hn
  all_goals
    refine ⟨Nat.le_refl _, ?_⟩
    rintro drawn _ ⟨⟩ n hn
    exact Or.inl hn

end Tokens

/-! ## The invariant -/

/-- The token a flow inserted, and whose it is. -/
def Phase.holds : Phase → Option (Str × Str)
  | .before _ => none
  | .issued hash userId | .done hash userId => some (hash, userId)

/-- An unspent token. -/
def Live (w : World) (kind : TokenKind) (userId hash : Str) : Prop :=
  ∃ t, get w.tokens hash = some t ∧ t.kind = kind ∧ t.userId = userId ∧ t.spentAt = none

/-- Another flow of this kind had not ended when this one began. -/
def Overlapped (log : IssueLog) (kind : TokenKind) (i : ℕ) : Prop :=
  ∃ j g, j ≠ i ∧ .began j g ∈ log ∧ g.kind = kind ∧
    ∀ r l₁ l₂, log = l₁ ++ .ended j r :: l₂ → ∀ f, .began i f ∉ l₂

theorem Overlapped.concat {log : IssueLog} {kind : TokenKind} {i : ℕ} (h : Overlapped log kind i)
    {e : Entry Call Answer IssueFlow Failure (Option IssuedToken)} (he : ∀ f, e ≠ .began i f) :
    Overlapped (log ++ [e]) kind i := by
  obtain ⟨j, g, hji, hg, hkind, hended⟩ := h
  refine ⟨j, g, hji, List.mem_append_left _ hg, hkind, fun r l₁ l₂ hlog f hf => ?_⟩
  obtain ⟨rfl, rfl⟩ | ⟨l₃, rfl, hold⟩ := concat_eq_append_cons hlog
  · cases List.append_cancel_left hlog
    exact List.not_mem_nil hf
  · obtain hf | hf := List.mem_append.mp hf
    · exact hended r l₁ l₃ hold f hf
    · exact he f (List.mem_singleton.mp hf).symm

structure Retiring (ctx : Context) (w : World) (log : IssueLog)
    (m : ℕ → Option (IssueFlow × Phase)) : Prop where
  named : ∀ hash t, get w.tokens hash = some t → t.tokenHash = hash
  fresh : ∀ n, w.draws ≤ n → get w.tokens (hashOf ctx n) = none
  drawn : ∀ i f drawn, m i = some (f, .before drawn) →
    ∀ n ∈ drawn, n < w.draws ∧ get w.tokens (hashOf ctx n) = none
  apart : ∀ i j f g drawn drawn', m i = some (f, .before drawn) → m j = some (g, .before drawn') →
    ∀ n ∈ drawn, n ∈ drawn' → i = j
  held : ∀ i f p hash userId, m i = some (f, p) → p.holds = some (hash, userId) →
    ∃ t, get w.tokens hash = some t ∧ t.kind = f.kind ∧ t.userId = userId ∧
      (t.spentAt = none ∨ Overlapped log f.kind i)
  /-- Once somebody retired the others, one token is left, and those still to retire. -/
  latest : ∀ i f hash userId, m i = some (f, .done hash userId) → ∃ last, ∀ hash',
    Live w f.kind userId hash' → hash' = last ∨
      ∃ j g, m j = some (g, .issued hash' userId) ∧ g.kind = f.kind
  inserted : ∀ i record r, .called i (.insertToken record) r ∈ log → record.kind ≠ .secondFactor →
    ∃ f p, m i = some (f, p) ∧ f.kind = record.kind ∧
      p.holds = some (record.tokenHash, record.userId)
  began : ∀ i f p, m i = some (f, p) → .began i f ∈ log

/-! ### One step -/

section Retiring

variable {ctx : Context} {w w' : World} {log : IssueLog}
  {m : ℕ → Option (IssueFlow × Phase)} {i : ℕ}
  {f : IssueFlow} {p p' : Phase} {c : Call} {r : Answer c}

theorem Phase.holds_answered (p : Phase) (c : Call) (r : Answer c) :
    (p.answered c r).holds = p.holds := by
  cases p <;> cases c <;> rfl

theorem Phase.answered_eq_before {drawn : List ℕ} (h : p.answered c r = .before drawn) :
    ∃ drawn', p = .before drawn' := by
  cases p
  case before drawn' => exact ⟨drawn', rfl⟩
  all_goals cases c <;> cases h

theorem Phase.answered_eq_issued {hash userId : Str} :
    p.answered c r = .issued hash userId ↔ p = .issued hash userId := by
  cases p <;> cases c <;> simp [Phase.answered]

theorem Phase.answered_eq_done {hash userId : Str} :
    p.answered c r = .done hash userId ↔ p = .done hash userId := by
  cases p <;> cases c <;> simp [Phase.answered]

/-- What one call adds to the log, and who began. -/
theorem Retiring.began_called (h : Retiring ctx w log m) (hi : m i = some (f, p)) (j : ℕ)
    (g : IssueFlow) (q : Phase) (hj : Function.update m i (some (f, p')) j = some (g, q)) :
    (.began j g : Entry Call Answer IssueFlow Failure (Option IssuedToken)) ∈
      log ++ [.called i c r] := by
  refine List.mem_append_left _ ?_
  obtain ⟨rfl, heq⟩ | ⟨-, hj⟩ := update_eq_some.mp hj
  · cases heq
    exact h.began j f p hi
  · exact h.began j g q hj

theorem Retiring.aside (h : Retiring ctx w log m) (hi : m i = some (f, p))
    (hexec : exec c w = (r, w')) (haside : Aside ctx c) :
    Retiring ctx w' (log ++ [.called i c r]) (Function.update m i (some (f, p.answered c r))) := by
  have hkeeps := exec_aside hexec haside
  obtain ⟨hdraws, hdrawn⟩ := exec_aside_draws hexec
  have hnone : ∀ n, get w.tokens (hashOf ctx n) = none → get w'.tokens (hashOf ctx n) = none := by
    intro n hn
    refine Option.eq_none_iff_forall_ne_some.mpr fun t' ht' => ?_
    obtain ⟨t, ht, -⟩ | ⟨-, -, hne⟩ := (hkeeps _).2 t' ht'
    · cases hn.symm.trans ht
    · exact hne n rfl
  have hbefore : ∀ j g drawn', Function.update m i (some (f, p.answered c r)) j =
      some (g, .before drawn') → ∃ drawn, m j = some (g, .before drawn) ∧
        ∀ n ∈ drawn', n ∈ drawn ∨ j = i ∧ n = w.draws ∧ n < w'.draws := by
    intro j g drawn' hj
    obtain ⟨rfl, heq⟩ | ⟨-, hj⟩ := update_eq_some.mp hj
    · obtain ⟨rfl, hp⟩ := Prod.mk.inj heq
      obtain ⟨drawn, rfl⟩ := Phase.answered_eq_before hp
      exact ⟨drawn, hi, fun n hn => (hdrawn drawn drawn' hp n hn).imp_right fun h => ⟨rfl, h⟩⟩
    · exact ⟨drawn', hj, fun n hn => Or.inl hn⟩
  refine
    { named := fun hash t' ht' => ?_
      fresh := fun n hn => hnone n (h.fresh n (hdraws.trans hn))
      drawn := fun j g drawn' hj n hn => ?_
      apart := fun j k g g' drawn drawn' hj hk n hn hn' => ?_
      held := fun j g q hash userId hj hq => ?_
      latest := fun j g hash userId hj => ?_
      inserted := fun j record r' hmem hkind => ?_
      began := h.began_called hi }
  case refine_1 =>
    obtain ⟨t, ht, hsame⟩ | ⟨hhash, -, -⟩ := (hkeeps hash).2 t' ht'
    · exact hsame.1.trans (h.named hash t ht)
    · exact hhash
  case refine_2 =>
    obtain ⟨drawn, hj, hdrawn⟩ := hbefore j g drawn' hj
    obtain hn | ⟨-, rfl, hlt⟩ := hdrawn n hn
    · obtain ⟨hlt, hnone'⟩ := h.drawn j g drawn hj n hn
      exact ⟨hlt.trans_le hdraws, hnone n hnone'⟩
    · exact ⟨hlt, hnone _ (h.fresh _ (Nat.le_refl _))⟩
  case refine_3 =>
    obtain ⟨drawn₁, hmj, hdrawn₁⟩ := hbefore j g drawn hj
    obtain ⟨drawn₂, hmk, hdrawn₂⟩ := hbefore k g' drawn' hk
    -- a number drawn now is nobody else's
    obtain hn | ⟨rfl, rfl, -⟩ := hdrawn₁ n hn
    · obtain hn' | ⟨rfl, rfl, -⟩ := hdrawn₂ n hn'
      · exact h.apart j k g g' _ _ hmj hmk n hn hn'
      · exact absurd (h.drawn j g _ hmj _ hn).1 (Nat.lt_irrefl _)
    · obtain hn' | ⟨rfl, -, -⟩ := hdrawn₂ _ hn'
      · exact absurd (h.drawn k g' _ hmk _ hn').1 (Nat.lt_irrefl _)
      · rfl
  case refine_4 =>
    have hold : ∃ q, m j = some (g, q) ∧ q.holds = some (hash, userId) := by
      obtain ⟨rfl, heq⟩ | ⟨-, hj⟩ := update_eq_some.mp hj
      · obtain ⟨rfl, rfl⟩ := Prod.mk.inj heq
        exact ⟨p, hi, (p.holds_answered c r).symm.trans hq⟩
      · exact ⟨q, hj, hq⟩
    obtain ⟨q, hj, hq⟩ := hold
    obtain ⟨t, ht, hkind, huser, hspent⟩ := h.held j g q hash userId hj hq
    obtain ⟨t', ht', hsame⟩ := (hkeeps hash).1 t ht
    exact ⟨t', ht', hsame.2.1.trans hkind, hsame.2.2.1.trans huser,
      hspent.imp hsame.2.2.2.trans fun hover => hover.concat nofun⟩
  case refine_5 =>
    have hold : m j = some (g, .done hash userId) := by
      obtain ⟨rfl, heq⟩ | ⟨-, hj⟩ := update_eq_some.mp hj
      · obtain ⟨rfl, hp⟩ := Prod.mk.inj heq
        rw [hi, Phase.answered_eq_done.mp hp]
      · exact hj
    obtain ⟨last, hlast⟩ := h.latest j g hash userId hold
    refine ⟨last, fun hash' hlive => ?_⟩
    obtain ⟨t', ht', hkind, huser, hspent⟩ := hlive
    obtain ⟨t, ht, hsame⟩ | ⟨-, hfactor, -⟩ := (hkeeps hash').2 t' ht'
    · refine (hlast hash' ⟨t, ht, hsame.2.1.symm.trans hkind, hsame.2.2.1.symm.trans huser,
        hsame.2.2.2.symm.trans hspent⟩).imp_right ?_
      rintro ⟨k, g', hk, hg'⟩
      refine ⟨k, g', ?_, hg'⟩
      by_cases hki : k = i
      · subst hki
        rw [hi] at hk
        cases hk
        rw [Function.update_self, Phase.answered_eq_issued.mpr rfl]
      · rwa [Function.update_of_ne hki]
    · exact absurd (hkind.symm.trans hfactor) g.kind_ne
  case refine_6 =>
    have hmem : .called j (.insertToken record) r' ∈ log := by
      refine (List.mem_append.mp hmem).resolve_right fun hnew => ?_
      cases List.mem_singleton.mp hnew
      exact hkind haside.1
    obtain ⟨g, q, hj, hg, hq⟩ := h.inserted j record r' hmem hkind
    by_cases hji : j = i
    · subst hji
      rw [hi] at hj
      cases hj
      exact ⟨f, _, Function.update_self .., hg, (p.holds_answered c r).trans hq⟩
    · exact ⟨g, q, (Function.update_of_ne hji _ m).trans hj, hg, hq⟩

theorem hashOf_injective (ctx : Context) : Function.Injective (hashOf ctx) := fun _ _ h =>
  ctx.runtime.secret_injective (ctx.runtime.sha256_injective h)

theorem Retiring.issue (h : Retiring ctx w log m) {drawn : List ℕ} {n : ℕ} {record : TokenRecord}
    (hi : m i = some (f, .before drawn)) (mem : n ∈ drawn) (hash : record.tokenHash = hashOf ctx n)
    (kind : record.kind = f.kind) (unspent : record.spentAt = none) :
    Retiring ctx { w with tokens := insertToken w.tokens record }
      (log ++ [.called i (.insertToken record) ()])
      (Function.update m i (some (f, .issued record.tokenHash record.userId))) := by
  obtain ⟨hlt, hnone⟩ := h.drawn i f drawn hi n mem
  have hstored : get (insertToken w.tokens record) record.tokenHash = some record := by
    rw [get_insertToken, if_pos rfl, hash, hnone, Option.getD_none]
  have hother : ∀ hash', record.tokenHash ≠ hash' →
      get (insertToken w.tokens record) hash' = get w.tokens hash' := fun hash' hne => by
    rw [get_insertToken, if_neg hne]
  have hinserted : ∀ n', n' ≠ n → get w.tokens (hashOf ctx n') = none →
      get (insertToken w.tokens record) (hashOf ctx n') = none := fun n' hne hnone' => by
    rw [hother _ fun heq => hne (hashOf_injective ctx (heq.symm.trans hash)), hnone']
  refine
    { named := fun hash' t ht => ?_
      fresh := fun n' hn' => hinserted n' (Nat.ne_of_gt (hlt.trans_le hn')) (h.fresh n' hn')
      drawn := fun j g drawn' hj n' hn' => ?_
      apart := fun j k g g' drawn₁ drawn₂ hj hk n' hn₁ hn₂ => ?_
      held := fun j g q hash' userId hj hq => ?_
      latest := fun j g hash' userId hj => ?_
      inserted := fun j record' r' hmem hkind => ?_
      began := h.began_called hi }
  case refine_1 =>
    by_cases heq : record.tokenHash = hash'
    · rw [← heq, hstored] at ht
      cases ht
      exact heq
    · exact h.named hash' t (hother hash' heq ▸ ht)
  case refine_2 =>
    obtain ⟨-, heq⟩ | ⟨hji, hj⟩ := update_eq_some.mp hj
    · cases heq
    · obtain ⟨hlt', hnone'⟩ := h.drawn j g drawn' hj n' hn'
      refine ⟨hlt', hinserted n' ?_ hnone'⟩
      rintro rfl
      exact hji (h.apart j i g f drawn' drawn hj hi n' hn' mem)
  case refine_3 =>
    obtain ⟨-, heq⟩ | ⟨-, hj⟩ := update_eq_some.mp hj
    · cases heq
    · obtain ⟨-, heq⟩ | ⟨-, hk⟩ := update_eq_some.mp hk
      · cases heq
      · exact h.apart j k g g' _ _ hj hk n' hn₁ hn₂
  case refine_4 =>
    obtain ⟨rfl, heq⟩ | ⟨-, hj⟩ := update_eq_some.mp hj
    · cases heq
      cases hq
      exact ⟨record, hstored, kind, rfl, Or.inl unspent⟩
    · obtain ⟨t, ht, hkind, huser, hspent⟩ := h.held j g q hash' userId hj hq
      refine ⟨t, (hother hash' fun heq => ?_).trans ht, hkind, huser,
        hspent.imp_right fun hover => hover.concat nofun⟩
      rw [← heq, hash, hnone] at ht
      cases ht
  case refine_5 =>
    obtain ⟨-, heq⟩ | ⟨hji, hj⟩ := update_eq_some.mp hj
    · cases heq
    · obtain ⟨last, hlast⟩ := h.latest j g hash' userId hj
      refine ⟨last, fun hash₂ hlive => ?_⟩
      obtain ⟨t, ht, hkind, huser, hspent⟩ := hlive
      by_cases heq : record.tokenHash = hash₂
      · subst heq
        cases hstored.symm.trans ht
        exact Or.inr ⟨i, f, by rw [Function.update_self, huser], kind.symm.trans hkind⟩
      · refine (hlast hash₂ ⟨t, (hother hash₂ heq).symm.trans ht, hkind, huser, hspent⟩).imp_right ?_
        rintro ⟨k, g', hk, hg'⟩
        refine ⟨k, g', (Function.update_of_ne (fun hki => ?_) _ m).trans hk, hg'⟩
        subst hki
        cases hi.symm.trans hk
  case refine_6 =>
    obtain hmem | hnew := List.mem_append.mp hmem
    · obtain ⟨g, q, hj, hg, hq⟩ := h.inserted j record' r' hmem hkind
      refine ⟨g, q, (Function.update_of_ne (fun hji => ?_) _ m).trans hj, hg, hq⟩
      subst hji
      cases hi.symm.trans hj
      cases hq
    · cases List.mem_singleton.mp hnew
      exact ⟨f, _, Function.update_self .., kind.symm, rfl⟩

/-- A token spent is the same token, and spent. -/
theorem spent_eq (t : TokenRecord) (at_ : Time) :
    (t.spent at_).tokenHash = t.tokenHash ∧ (t.spent at_).kind = t.kind ∧
      (t.spent at_).userId = t.userId ∧ (t.spent at_).spentAt ≠ none := by
  rw [TokenRecord.spent]
  split
  · exact ⟨rfl, rfl, rfl, nofun⟩
  · exact ⟨rfl, rfl, rfl, by assumption⟩

theorem Retiring.retire (h : Retiring ctx w log m) {hash userId : Str} {at_ : Time} {n : ℕ}
    (hi : m i = some (f, .issued hash userId)) (hends : ∀ r', .ended i r' ∉ log) :
    Retiring ctx { w with tokens := (spendUserTokens w.tokens userId f.kind at_ (some hash)).2 }
      (log ++ [.called i (.spendUserTokens userId f.kind at_ (some hash)) n])
      (Function.update m i (some (f, .done hash userId))) := by
  have hget : ∀ hash', get (spendUserTokens w.tokens userId f.kind at_ (some hash)).2 hash' =
      (get w.tokens hash').map fun stored =>
        if stored.isOf userId f.kind (some hash) then stored.spent at_ else stored :=
    get_spendUserTokens _ _ _ _
  have hold : ∀ j g q hash' userId', Function.update m i (some (f, .done hash userId)) j =
      some (g, q) → q.holds = some (hash', userId') →
      ∃ q', m j = some (g, q') ∧ q'.holds = some (hash', userId') := by
    intro j g q hash' userId' hj hq
    obtain ⟨rfl, heq⟩ | ⟨-, hj⟩ := update_eq_some.mp hj
    · cases heq
      exact ⟨_, hi, hq⟩
    · exact ⟨q, hj, hq⟩
  -- an unspent token was not reached
  have hlive : ∀ kind userId' hash', Live
      { w with tokens := (spendUserTokens w.tokens userId f.kind at_ (some hash)).2 } kind
      userId' hash' →
      Live w kind userId' hash' ∧ (kind = f.kind → userId' = userId → hash' = hash) := by
    rintro kind userId' hash' ⟨t', ht', hkind, huser, hunspent⟩
    obtain ⟨t, ht, rfl⟩ := Option.map_eq_some_iff.mp ((hget hash').symm.trans ht')
    by_cases hof : t.isOf userId f.kind (some hash)
    · rw [if_pos hof] at hunspent
      exact absurd hunspent (spent_eq t at_).2.2.2
    · rw [if_neg hof] at hkind huser hunspent
      refine ⟨⟨t, ht, hkind, huser, hunspent⟩, fun hk hu => ?_⟩
      by_contra hne
      refine hof (decide_eq_true ⟨?_, huser.trans hu, hkind.trans hk⟩)
      rw [h.named hash' t ht]
      exact fun he => hne (Option.some.inj he)
  refine
    { named := fun hash' t' ht' => ?_
      fresh := fun n' hn' => (hget _).trans (by rw [h.fresh n' hn', Option.map_none])
      drawn := fun j g drawn hj n' hn' => ?_
      apart := fun j k g g' drawn₁ drawn₂ hj hk n' hn₁ hn₂ => ?_
      held := fun j g q hash' userId' hj hq => ?_
      latest := fun j g hash' userId' hj => ?_
      inserted := fun j record r' hmem hkind => ?_
      began := h.began_called hi }
  case refine_1 =>
    obtain ⟨t, ht, rfl⟩ := Option.map_eq_some_iff.mp ((hget hash').symm.trans ht')
    split
    · exact (spent_eq t at_).1.trans (h.named hash' t ht)
    · exact h.named hash' t ht
  case refine_2 =>
    obtain ⟨-, heq⟩ | ⟨-, hj⟩ := update_eq_some.mp hj
    · cases heq
    · obtain ⟨hlt, hnone⟩ := h.drawn j g drawn hj n' hn'
      exact ⟨hlt, (hget _).trans (by rw [hnone, Option.map_none])⟩
  case refine_3 =>
    obtain ⟨-, heq⟩ | ⟨-, hj⟩ := update_eq_some.mp hj
    · cases heq
    · obtain ⟨-, heq⟩ | ⟨-, hk⟩ := update_eq_some.mp hk
      · cases heq
      · exact h.apart j k g g' _ _ hj hk n' hn₁ hn₂
  case refine_4 =>
    obtain ⟨q', hmj, hq'⟩ := hold j g q hash' userId' hj hq
    obtain ⟨t, ht, hkind, huser, hunspent⟩ := h.held j g q' hash' userId' hmj hq'
    by_cases hof : t.isOf userId f.kind (some hash)
    · refine ⟨t.spent at_, ?_, (spent_eq t at_).2.1.trans hkind, (spent_eq t at_).2.2.1.trans huser,
        Or.inr ⟨i, f, ?_, List.mem_append_left _ (h.began i f _ hi),
          (of_decide_eq_true hof).2.2.symm.trans hkind, fun r' l₁ l₂ hlog g' _ => ?_⟩⟩
      · exact (hget hash').trans (by rw [ht, Option.map_some, if_pos hof])
      · rintro rfl
        cases hi.symm.trans hmj
        cases hq'
        exact (of_decide_eq_true hof).1 (congrArg some (h.named hash t ht))
      · refine (List.mem_append.mp (hlog ▸ List.mem_append_right l₁ List.mem_cons_self)).elim
          (hends r') fun hnew => ?_
        cases List.mem_singleton.mp hnew
    · refine ⟨t, ?_, hkind, huser, hunspent.imp_right fun hover => hover.concat nofun⟩
      exact (hget hash').trans (by rw [ht, Option.map_some, if_neg hof])
  case refine_5 =>
    by_cases hsame : g.kind = f.kind ∧ userId' = userId
    · exact ⟨hash, fun hash₂ hl => Or.inl ((hlive _ _ _ hl).2 hsame.1 hsame.2)⟩
    · obtain ⟨rfl, heq⟩ | ⟨-, hj⟩ := update_eq_some.mp hj
      · cases heq
        exact absurd ⟨rfl, rfl⟩ hsame
      · obtain ⟨last, hlast⟩ := h.latest j g hash' userId' hj
        refine ⟨last, fun hash₂ hl => (hlast hash₂ (hlive _ _ _ hl).1).imp_right ?_⟩
        rintro ⟨k, g', hk, hg'⟩
        refine ⟨k, g', (Function.update_of_ne (fun hki => ?_) _ m).trans hk, hg'⟩
        subst hki
        cases hi.symm.trans hk
        exact hsame ⟨hg'.symm, rfl⟩
  case refine_6 =>
    have hmem : .called j (.insertToken record) r' ∈ log := by
      refine (List.mem_append.mp hmem).resolve_right fun hnew => ?_
      cases List.mem_singleton.mp hnew
    obtain ⟨g, q, hj, hg, hq⟩ := h.inserted j record r' hmem hkind
    by_cases hji : j = i
    · subst hji
      cases hi.symm.trans hj
      exact ⟨f, _, Function.update_self .., hg, hq⟩
    · exact ⟨g, q, (Function.update_of_ne hji _ m).trans hj, hg, hq⟩

theorem Retiring.begin (h : Retiring ctx w log m) (hi : m i = none) :
    Retiring ctx w (log ++ [.began i f]) (Function.update m i (some (f, .before []))) := by
  have hold : ∀ j g q, Function.update m i (some (f, .before [])) j = some (g, q) →
      q = .before [] ∧ j = i ∧ g = f ∨ j ≠ i ∧ m j = some (g, q) := by
    intro j g q hj
    obtain ⟨rfl, heq⟩ | hj := update_eq_some.mp hj
    · cases heq
      exact Or.inl ⟨rfl, rfl, rfl⟩
    · exact Or.inr hj
  have hnew : ∀ {j g q}, m j = some (g, q) →
      Function.update m i (some (f, .before [])) j = some (g, q) := fun {j g q} hj => by
    refine (Function.update_of_ne (fun hji => ?_) _ m).trans hj
    subst hji
    cases hi.symm.trans hj
  refine
    { h with
      drawn := fun j g drawn hj n hn => ?_
      apart := fun j k g g' drawn drawn' hj hk n hn hn' => ?_
      held := fun j g q hash userId hj hq => ?_
      latest := fun j g hash userId hj => ?_
      inserted := fun j record r' hmem hkind => ?_
      began := fun j g q hj => ?_ }
  case refine_1 =>
    obtain ⟨heq, -⟩ | ⟨-, hj⟩ := hold j g _ hj
    · cases heq
      cases hn
    · exact h.drawn j g drawn hj n hn
  case refine_2 =>
    obtain ⟨heq, -⟩ | ⟨-, hj⟩ := hold j g _ hj
    · cases heq
      cases hn
    · obtain ⟨heq, -⟩ | ⟨-, hk⟩ := hold k g' _ hk
      · cases heq
        cases hn'
      · exact h.apart j k g g' drawn drawn' hj hk n hn hn'
  case refine_3 =>
    obtain ⟨rfl, -⟩ | ⟨hji, hj⟩ := hold j g q hj
    · cases hq
    · obtain ⟨t, ht, hkind, huser, hspent⟩ := h.held j g q hash userId hj hq
      refine ⟨t, ht, hkind, huser, hspent.imp_right fun hover => hover.concat fun f' he => ?_⟩
      cases he
      exact hji rfl
  case refine_4 =>
    obtain ⟨heq, -⟩ | ⟨-, hj⟩ := hold j g _ hj
    · cases heq
    · obtain ⟨last, hlast⟩ := h.latest j g hash userId hj
      exact ⟨last, fun hash' hlive => (hlast hash' hlive).imp_right fun ⟨k, g', hk, hg'⟩ =>
        ⟨k, g', hnew hk, hg'⟩⟩
  case refine_5 =>
    obtain ⟨g, q, hj, hg, hq⟩ := h.inserted j record r' (by simpa using hmem) hkind
    exact ⟨g, q, hnew hj, hg, hq⟩
  case refine_6 =>
    obtain ⟨-, rfl, rfl⟩ | ⟨-, hj⟩ := hold j g q hj
    · exact List.mem_append_right _ (List.mem_singleton_self _)
    · exact List.mem_append_left _ (h.began j g q hj)

theorem Retiring.finish (h : Retiring ctx w log m) {r : Except Failure (Option IssuedToken)} :
    Retiring ctx w (log ++ [.ended i r]) m :=
  { h with
    held := fun j g q hash userId hj hq => by
      obtain ⟨t, ht, hkind, huser, hspent⟩ := h.held j g q hash userId hj hq
      exact ⟨t, ht, hkind, huser, hspent.imp_right fun hover => hover.concat nofun⟩
    inserted := fun j record r' hmem => h.inserted j record r' (by simpa using hmem)
    began := fun j g q hj => List.mem_append_left _ (h.began j g q hj) }

theorem keeps (ctx : Context) : (protocol ctx).Keeps (fun _ => True) (Retiring ctx) where
  drift {_ _ _ e} h _ := by cases e <;> exact { h with }
  began h hi _ := h.begin hi
  called {_ _ _ _ _ _ _ c _ _} h hi hends hexec hstep := by
    cases hstep with
    | aside haside => exact h.aside hi hexec haside
    | issue mem hash kind unspent =>
      cases hexec
      exact h.issue hi mem hash kind unspent
    | retire =>
      cases hexec
      exact h.retire hi hends
  ended h _ _ _ := h.finish

/-- A store no later secret names a token of, each token under its own hash. -/
structure Unused (ctx : Context) (w : World) : Prop where
  named : ∀ hash t, get w.tokens hash = some t → t.tokenHash = hash
  fresh : ∀ n, w.draws ≤ n → get w.tokens (hashOf ctx n) = none

theorem Unused.retiring (h : Unused ctx w) : Retiring ctx w [] fun _ => none where
  named := h.named
  fresh := h.fresh
  drawn _ _ _ hi := (Option.some_ne_none _ hi.symm).elim
  apart _ _ _ _ _ _ hi := (Option.some_ne_none _ hi.symm).elim
  held _ _ _ _ _ hi := (Option.some_ne_none _ hi.symm).elim
  latest _ _ _ _ hi := (Option.some_ne_none _ hi.symm).elim
  inserted _ _ _ hmem := absurd hmem List.not_mem_nil
  began _ _ _ hi := (Option.some_ne_none _ hi.symm).elim

end Retiring

end Latest

open Latest in
/-- **A request for a new link or code retires the earlier ones.**  However the issuing flows
interleave: once every one of a kind has ended, whoever inserted a token of that kind answered it,
at most one token of that kind and that user is unspent; and it is this one, when every other flow
of the kind had ended before this one began. -/
theorem latest_alone {ctx : Context} {w : World} (hw : Unused ctx w)
    {moves : List (Move Drift IssueFlow)} {i : ℕ} {record : TokenRecord} {r : Unit}
    (hkind : record.kind ≠ .secondFactor)
    (hissued : .called i (.insertToken record) r ∈ ((issueService ctx).run w moves).log)
    (hended : ∀ (j : ℕ) (g : IssueFlow) (x : Flow (Option IssuedToken)),
      ((issueService ctx).run w moves).threads[j]? = some (g, x) → g.kind = record.kind →
      ∃ r, x = .done r) :
    let s := (issueService ctx).run w moves
    (∃ f issued, s.threads[i]? = some (f, .done (.ok (some issued))) ∧ f.kind = record.kind ∧
      record.tokenHash = hashSecret ctx issued.secret) ∧
    (∀ hash hash', Live s.world record.kind record.userId hash →
      Live s.world record.kind record.userId hash' → hash = hash') ∧
    ((∀ j g, j ≠ i → .began j g ∈ s.log → g.kind = record.kind →
        ∃ r l₁ l₂ f, s.log = l₁ ++ .ended j r :: l₂ ∧ .began i f ∈ l₂) →
      ∀ hash, Live s.world record.kind record.userId hash ↔ hash = record.tokenHash) := by
  obtain ⟨m, hmatches, hinv⟩ := (keeps ctx).run hw.retiring fun _ (_ : _ ∈ moves) => trivial
  obtain ⟨f, p, hi, hf, hp⟩ := hinv.inserted i record r hissued hkind
  -- a flow of the kind that ended holds nothing, or is done
  have hdone : ∀ j g q, m j = some (g, q) → g.kind = record.kind →
      ∃ r, ((issueService ctx).run w moves).threads[j]? = some (g, .done r) ∧ Final ctx r q := by
    intro j g q hj hg
    obtain ⟨x, hx, -⟩ := hmatches.began hj
    obtain ⟨r, rfl⟩ := hended j g x hx hg
    obtain ⟨⟨q', hq', hfinal⟩, -⟩ := hmatches.done hx
    cases hj.symm.trans hq'
    exact ⟨r, hx, hfinal⟩
  have hpending : ∀ j g hash, m j = some (g, .issued hash record.userId) →
    g.kind ≠ record.kind := by
    intro j g hash hj hg
    obtain ⟨r, -, hfinal⟩ := hdone j g _ hj hg
    match r, hfinal with
    | .ok (some _), ⟨_, h⟩ => cases h
    | .ok none, ⟨_, h⟩ => cases h
    | .error _, ⟨_, h⟩ => cases h
  obtain ⟨result, hthread, hfinal⟩ := hdone i f p hi hf
  obtain ⟨issued, rfl, hash, rfl⟩ : ∃ issued, result = .ok (some issued) ∧
      ∃ userId, p = .done (hashSecret ctx issued.secret) userId := by
    match result, hfinal with
    | .ok (some issued), ⟨userId, h⟩ => exact ⟨issued, rfl, userId, h⟩
    | .ok none, ⟨_, h⟩ => cases h; cases hp
    | .error _, ⟨_, h⟩ => cases h; cases hp
  obtain ⟨hhash, rfl⟩ := Prod.mk.inj (Option.some.inj hp)
  obtain ⟨last, hlast⟩ := hinv.latest i f _ _ hi
  have halone : ∀ hash, Live ((issueService ctx).run w moves).world record.kind record.userId hash →
      hash = last := fun hash hlive => by
    refine (hlast hash (hf ▸ hlive)).resolve_right ?_
    rintro ⟨j, g, hj, hg⟩
    exact hpending j g hash hj (hg.trans hf)
  refine ⟨⟨f, issued, hthread, hf, hhash.symm⟩,
    fun hash hash' h h' => (halone hash h).trans (halone hash' h').symm, fun hlater hash => ?_⟩
  have hlive : Live ((issueService ctx).run w moves).world record.kind record.userId
      record.tokenHash := by
    obtain ⟨t, ht, hkind', huser, hunspent | ⟨j, g, hji, hg, hgkind, hover⟩⟩ :=
      hinv.held i f _ _ _ hi rfl
    · exact ⟨t, hhash ▸ ht, hkind'.trans hf, huser, hunspent⟩
    · obtain ⟨r, l₁, l₂, f', hlog, hbegan⟩ := hlater j g hji hg (hgkind.trans hf)
      exact absurd hbegan (hover r l₁ l₂ hlog f')
  exact ⟨fun h => (halone hash h).trans (halone _ hlive).symm, fun h => h ▸ hlive⟩

/-! ## Three links asked for -/

/-- Ada's link, asked for. -/
def askedLink : IssueFlow := .magicLink patient (js "ada@clinic.test") (js "patient." ++ ·)

/-- Two at once, each stored before the other is retired; and a third once both have ended. -/
def askedThrice : List (Move Drift IssueFlow) :=
  [.begin askedLink, .begin askedLink] ++
    [0, 0, 0, 0, 1, 1, 1, 1, 0, 0, 1, 1].map .step ++ [.begin askedLink] ++
    List.replicate 6 (.step 2)

/-- The third's token. -/
def thirdLink : TokenRecord where
  tokenHash := js "secret:2"
  kind := .magicLink
  userId := ada.id
  address := js "ada@clinic.test"
  codeHash := none
  attempts := 0
  expiresAt := 600000
  spentAt := none
  createdAt := 0

/-- Whether an entry is of one of the first three. -/
def amongThree : Entry Call Answer IssueFlow Failure (Option IssuedToken) → Bool
  | .began j _ => j < 3
  | _ => true

open Latest in
/-- The third link is the one left. -/
theorem latest_alone_thrice :
    {hash | Live ((issueService clinic).run quietClinic askedThrice).world .magicLink ada.id hash} =
      {js "secret:2"} := by
  ext hash
  have hunused : Unused clinic quietClinic := { named := nofun, fresh := fun _ _ => rfl }
  have hissued : .called 2 (.insertToken thirdLink) () ∈
      ((issueService clinic).run quietClinic askedThrice).log := List.mem_of_getElem? (i := 20) rfl
  obtain ⟨a, b, c, hthreads⟩ : ∃ a b c, ((issueService clinic).run quietClinic askedThrice).threads =
      [(askedLink, .done a), (askedLink, .done b), (askedLink, .done c)] := ⟨_, _, _, rfl⟩
  have hamong : ((issueService clinic).run quietClinic askedThrice).log.all amongThree = true := by
    decide +kernel
  refine (latest_alone hunused (by decide) hissued fun j g x hx _ => ?_).2.2
    (fun j g hj hg _ => ?_) hash
  case refine_1 =>
    rw [hthreads] at hx
    match j, hx with
    | 0, rfl => exact ⟨_, rfl⟩
    | 1, rfl => exact ⟨_, rfl⟩
    | 2, rfl => exact ⟨_, rfl⟩
  case refine_2 =>
    have hlt : j < 3 := of_decide_eq_true (List.all_eq_true.mp hamong _ hg)
    obtain rfl | rfl : j = 0 ∨ j = 1 := by omega
    · exact ⟨_, _, _, askedLink, (List.take_append_drop 12 _).symm,
        List.mem_of_getElem? (i := 3) rfl⟩
    · exact ⟨_, _, _, askedLink, (List.take_append_drop 15 _).symm,
        List.mem_of_getElem? (i := 0) rfl⟩

end Janus.Auth
