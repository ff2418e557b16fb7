import Janus.Auth.Chain
import Janus.Auth.Throttle
import Mathlib.Data.Finset.Prod
import Mathlib.Data.Set.Card
import Mathlib.Order.Interval.Finset.Nat

/-!
# Auth/Restarting — the sign-in throttle admits no extra guess

Whatever the probes read while other calls spend and store links, an attempt is only ever counted on
the one unspent link.  So every attempt of a link has a number of its own, and one link lets through
no more than the limit.
-/

namespace Janus.Auth

open Js Insertion Calls

/-! ## What runs at one login -/

/-- A password tried, or the count started again by a sign-in of a user holding this login. -/
inductive LoginFlow (type : ResolvedType) (login : Str) where
  | attempt (where_ : Str)
  | restart (record : UserRecord) (held : loginOf type record = some login) (where_ : Str)

/-- What one of them answers, unless it throws. -/
inductive LoginAnswer where
  | letThrough
  | restarted
deriving DecidableEq

variable {ctx : Context} {type : ResolvedType} {login : Str}

def LoginFlow.code (ctx : Context) : LoginFlow type login → Flow LoginAnswer
  | .attempt where_ => (fun _ => .letThrough) <$> countSignInAttempt ctx type login where_
  | .restart record _ where_ => (fun _ => .restarted) <$> restartSignInCount ctx type record where_

/-- Any number of them, over one store. -/
def loginService (ctx : Context) (type : ResolvedType) (login : Str) :
    Service Call Answer World Drift (LoginFlow type login) Failure LoginAnswer where
  exec := exec
  drift := drift
  code := LoginFlow.code ctx

/-- The log of such a run. -/
abbrev LoginLog (type : ResolvedType) (login : Str) :=
  List (Entry Call Answer (LoginFlow type login) Failure LoginAnswer)

/-! ## What a probing call does -/

namespace Restarting

inductive Phase where
  | start
  | probing (links : Links) (below : ℕ)
  | recounting (links : Links) (below : ℕ)
  | passed (links : Links) (link attempts : ℕ)
  | failed

/-- After a link answered: counted on it, or on past it. -/
def after (links : Links) (link : ℕ) (t : TokenRecord) : Phase :=
  match t.spentAt with
  | none => .passed links link t.attempts
  | some _ => .probing links (link + 1)

inductive Step (throttle : Throttle) (ctx : Context) (type : ResolvedType) (login : Str) :
    Phase → (c : Call) → Answer c → Phase → Prop
  | now (where_ : Str) (t : Time) : Step throttle ctx type login .start .now t
      (.probing (linksAt (loginWindow ctx throttle type login where_) t) 0)
  | absent {links below link} : Step throttle ctx type login (.probing links below)
      (.countAttempt (links.hash link) .secondFactor) none (.probing links below)
  | tried {links below link} (t : TokenRecord) : Step throttle ctx type login (.probing links below)
      (.countAttempt (links.hash link) .secondFactor) (some t) (after links link t)
  | insert {links below} : Step throttle ctx type login (.probing links below)
      (.insertToken (links.record (links.hash below))) () (.recounting links below)
  | recount {links below} (t : TokenRecord) : Step throttle ctx type login (.recounting links below)
      (.countAttempt (links.hash below) .secondFactor) (some t) (after links below t)
  | vanished {links below} : Step throttle ctx type login (.recounting links below)
      (.countAttempt (links.hash below) .secondFactor) none .failed
  | later {links link attempts} (t : Time) : Step throttle ctx type login
      (.passed links link attempts) .now t (.passed links link attempts)
  | consume {links link attempts at_ r} : Step throttle ctx type login (.passed links link attempts)
      (.consumeToken (links.hash link) .secondFactor at_) r (.passed links link attempts)

/-- An attempt is let through once counted within the limit. -/
def Final (throttle : Throttle) : LoginFlow type login → Except Failure LoginAnswer → Phase → Prop
  | .attempt _, .ok .letThrough, p =>
    ∃ links link attempts, p = .passed links link attempts ∧ attempts ≤ throttle.attempts
  | .restart .., .ok .restarted, p => ∃ links link attempts, p = .passed links link attempts
  | _, .error _, _ => True
  | _, _, _ => False

variable {throttle : Throttle}

theorem leads_insertLink {links : Links} {below : ℕ} :
    Leads exec (Step throttle ctx type login) (.probing links below)
      (insertLink links (links.hash below)) (fun t p => p = after links below t)
      (fun _ _ => True) := by
  refine Leads.bind (Leads.perform fun w r _ => ⟨_, .insert, ?_⟩)
  refine Leads.bind (Leads.perform fun w r _ => ?_)
  cases r with
  | none => exact ⟨_, .vanished, trivial⟩
  | some t => exact ⟨_, .recount t, rfl⟩

/-- The link probed is above the highest known spent, and no higher than one known absent. -/
theorem lt_nextLink {spent : ℤ} {absent : Option ℤ} (_ : -1 ≤ spent)
    (habsent : ∀ a ∈ absent, spent < a) : spent < nextLink spent absent := by
  unfold nextLink
  split
  case h_1 => omega
  case h_2 a =>
    have := habsent a rfl
    split <;> omega

/-- One probe: nothing there, or the link's token counted. -/
theorem leads_probe {links : Links} {spent : ℤ} {absent : Option ℤ} :
    Leads exec (Step throttle ctx type login) (.probing links (spent + 1).toNat)
      (probe links spent absent (links.hash (nextLink spent absent).toNat))
      (fun t p => match t with
        | none => p = .probing links (spent + 1).toNat
        | some t => p = after links (nextLink spent absent).toNat t) (fun _ _ => True) := by
  rw [probe]
  split
  case isTrue h =>
    have hlink : nextLink spent absent = spent + 1 := by simp [nextLink, h]
    rw [hlink]
    exact Leads.map leads_insertLink
  case isFalse =>
    refine Leads.perform fun w r _ => ?_
    cases r with
    | none => exact ⟨_, .absent, rfl⟩
    | some t => exact ⟨_, .tried t, rfl⟩

theorem leads_restartFrom {links : Links} {probes : ℕ} {spent : ℤ} {absent : Option ℤ}
    (hspent : -1 ≤ spent) (habsent : ∀ a ∈ absent, spent < a) :
    Leads exec (Step throttle ctx type login) (.probing links (spent + 1).toNat)
      (restartFrom links probes spent absent)
      (fun counted p => ∃ link attempts, p = .passed links link attempts ∧
        counted = ⟨some attempts, some (links.hash link)⟩) (fun _ _ => True) := by
  induction probes generalizing spent absent with
  | zero => exact trivial
  | succ probes ih =>
    have hlt := lt_nextLink hspent habsent
    refine Leads.bind (leads_probe.mono ?_ fun _ _ h => h)
    rintro (_ | t) p hp
    · subst hp
      exact ih hspent fun a ha => Option.mem_some.mp ha ▸ hlt
    · subst hp
      dsimp only
      rw [after]
      cases ht : t.spentAt with
      | none => exact ⟨_, _, rfl, rfl⟩
      | some _ =>
        have hnext : (nextLink spent absent).toNat + 1 =
          (nextLink spent absent + 1).toNat := by omega
        dsimp only
        rw [hnext]
        refine ih (by omega) fun a ha => ?_
        exact of_decide_eq_true (Option.filter_eq_some_iff.mp ha).2

theorem leads_countRestarting {links : Links} :
    Leads exec (Step throttle ctx type login) (.probing links 0) (countRestarting links)
      (fun counted p => ∃ link attempts, p = .passed links link attempts ∧
        counted = ⟨some attempts, some (links.hash link)⟩) (fun _ _ => True) :=
  leads_restartFrom (Int.le_refl (-1)) nofun

theorem leads_countLogin {where_ : Str} (hthrottle : ctx.config.signInThrottle = some throttle) :
    Leads exec (Step throttle ctx type login) .start (countLogin ctx type login where_)
      (fun counted p => ∃ links link attempts endsAt, p = .passed links link attempts ∧
        counted = some ⟨⟨some attempts, some (links.hash link)⟩, endsAt⟩) (fun _ _ => True) := by
  rw [countLogin, hthrottle]
  refine Leads.map (Leads.bind (Leads.perform fun w t _ => ⟨_, .now where_ t, ?_⟩))
  refine Leads.bind (leads_countRestarting.mono ?_ fun _ _ h => h)
  rintro counted p ⟨link, attempts, rfl, rfl⟩
  exact ⟨_, link, attempts, _, rfl, rfl⟩

/-- The phases of everybody at one login. -/
def protocol (type : ResolvedType) (login : Str)
    (hthrottle : ctx.config.signInThrottle = some throttle) :
    Protocol (loginService ctx type login) where
  Phase := Phase
  start _ := .start
  Step _ := Step throttle ctx type login
  Final := Final throttle
  follows f := by
    cases f with
    | attempt where_ =>
      refine Leads.map (Leads.bind ((leads_countLogin hthrottle).mono ?_ fun _ _ h => h))
      rintro _ p ⟨links, link, attempts, endsAt, rfl, rfl⟩
      rw [hthrottle]
      dsimp only
      split
      case isTrue h => exact ⟨_, _, _, rfl, by simpa using h⟩
      case isFalse => exact Leads.bind (Leads.perform fun w t _ => ⟨_, .later t, trivial⟩)
    | restart record held where_ =>
      refine Leads.map ?_
      rw [restartSignInCount, held]
      refine Leads.bind ((leads_countLogin hthrottle).mono ?_ fun _ _ h => h)
      rintro _ p ⟨links, link, attempts, endsAt, rfl, rfl⟩
      refine Leads.bind (Leads.perform fun w t _ => ⟨_, .later t, ?_⟩)
      exact Leads.bind (Leads.perform fun w r _ => ⟨_, .consume, _, _, _, rfl⟩)

/-! ## What the links were answered -/

/-- The attempts answered on one link, in order, while it was unspent. -/
def returned (hash : ℕ → Str) (link : ℕ) (log : LoginLog type login) : List ℕ :=
  log.filterMap fun
    | .called _ (.countAttempt tokenHash .secondFactor) (some t) =>
      if tokenHash = hash link ∧ t.spentAt = none then some t.attempts else none
    | _ => none

theorem returned_append {hash : ℕ → Str} {link : ℕ} (log log' : LoginLog type login) :
    returned hash link (log ++ log') = returned hash link log ++ returned hash link log' :=
  List.filterMap_append

/-- Whoever was let through. -/
def through (log : LoginLog type login) : List ℕ :=
  log.filterMap fun
    | .ended i (.ok .letThrough) => some i
    | _ => none

variable {hash : ℕ → Str} {tokens tokens' : List (Str × TokenRecord)} {log : LoginLog type login}

theorem mem_through {i : ℕ} : i ∈ through log ↔ .ended i (.ok .letThrough) ∈ log := by
  rw [through, List.mem_filterMap]
  constructor
  · rintro ⟨e, he, h⟩
    split at h
    case h_1 j =>
      cases h
      exact he
    case h_2 => cases h
  · exact fun h => ⟨_, h, rfl⟩

/-- Call `i` was answered that its attempt on an unspent link makes so many. -/
def Numbered (hash : ℕ → Str) (log : LoginLog type login) (i link attempts : ℕ) : Prop :=
  ∃ t : TokenRecord, .called i (.countAttempt (hash link) .secondFactor) (some t) ∈ log ∧
    t.spentAt = none ∧ t.attempts = attempts

theorem Numbered.mem_returned {i link attempts : ℕ} (h : Numbered hash log i link attempts) :
    attempts ∈ returned hash link log := by
  obtain ⟨t, ht, hspent, rfl⟩ := h
  exact List.mem_filterMap.mpr ⟨_, ht, if_pos ⟨rfl, hspent⟩⟩

theorem eq_of_nodup_filterMap {α β : Type} {f : α → Option β} {l : List α} {a a' : α} {b : β}
    (h : (l.filterMap f).Nodup) (ha : a ∈ l) (ha' : a' ∈ l) (hb : f a = some b)
    (hb' : f a' = some b) : a = a' := by
  induction l with
  | nil => cases ha
  | cons x l ih =>
    have hmem : ∀ {y}, y ∈ l → f y = some b → b ∈ l.filterMap f := fun hy hfy =>
      List.mem_filterMap.mpr ⟨_, hy, hfy⟩
    rcases List.mem_cons.mp ha with rfl | hal <;> rcases List.mem_cons.mp ha' with rfl | hal'
    · rfl
    · rw [List.filterMap_cons_some hb, List.nodup_cons] at h
      exact absurd (hmem hal' hb') h.1
    · rw [List.filterMap_cons_some hb', List.nodup_cons] at h
      exact absurd (hmem hal hb) h.1
    · exact ih (h.sublist ((List.sublist_cons_self x l).filterMap f)) hal hal'

/-- Where the answers of a link are distinct, each was one call's. -/
theorem Numbered.unique {i j link attempts : ℕ} (h : Numbered hash log i link attempts)
    (h' : Numbered hash log j link attempts) (hnodup : (returned hash link log).Nodup) : i = j := by
  obtain ⟨t, ht, hspent, rfl⟩ := h
  obtain ⟨t', ht', hspent', heq⟩ := h'
  have := eq_of_nodup_filterMap hnodup ht ht' (if_pos ⟨rfl, hspent⟩)
    (heq ▸ if_pos ⟨rfl, hspent'⟩)
  cases this
  rfl

/-! ## One number for each attempt -/

/-- What a call knows of the links. -/
def Knows (hash : ℕ → Str) (tokens : List (Str × TokenRecord)) (log : LoginLog type login) (i : ℕ) :
    Phase → Prop
  | .probing links below | .recounting links below =>
    (∀ j, links.hash j = hash j) ∧ ∀ j < below, IsSpent tokens (hash j)
  | .passed links link attempts =>
    (∀ j, links.hash j = hash j) ∧ Numbered hash log i link attempts
  | _ => True

theorem Knows.kept {i : ℕ} {p : Phase} (h : Knows hash tokens log i p) (hkept : Kept tokens tokens')
    (e : Entry Call Answer (LoginFlow type login) Failure LoginAnswer) :
    Knows hash tokens' (log ++ [e]) i p := by
  cases p with
  | start => trivial
  | failed => trivial
  | probing links below => exact ⟨h.1, fun j hj => hkept.isSpent (h.2 j hj)⟩
  | recounting links below => exact ⟨h.1, fun j hj => hkept.isSpent (h.2 j hj)⟩
  | passed links link attempts =>
    obtain ⟨t, ht, hspent⟩ := h.2
    exact ⟨h.1, t, List.mem_append_left _ ht, hspent⟩

/-- **One number for each attempt**: what a link was answered, unspent, is one to its attempts. -/
structure Inv (throttle : Throttle) (ctx : Context) (type : ResolvedType) (login : Str)
    (window : ℕ) (w : World) (log : LoginLog type login)
    (m : ℕ → Option (LoginFlow type login × Phase)) : Prop where
  clock : w.clock / throttle.windowMs = window
  chain : Chain (loginLink ctx type login window) w.tokens
  knows : ∀ i f p, m i = some (f, p) → Knows (loginLink ctx type login window) w.tokens log i p
  returned : ∀ link, returned (loginLink ctx type login window) link log =
    List.range' 1 (attemptsAt w.tokens (loginLink ctx type login window link))
  ended : ∀ i r, .ended i r ∈ log → ∃ f p, m i = some (f, p) ∧ Final throttle f r p
  nodup : (through log).Nodup

section Inv

variable {window : ℕ} {w w' : World} {m : ℕ → Option (LoginFlow type login × Phase)}

/-- What one answered call of `i` does to everybody. -/
theorem Inv.called (h : Inv throttle ctx type login window w log m) {i : ℕ}
    {f : LoginFlow type login} {p' : Phase} {c : Call} {r : Answer c}
    (hends : ∀ r', .ended i r' ∉ log) (hclock : w'.clock = w.clock)
    (hkept : Kept w.tokens w'.tokens) (hchain : Chain (loginLink ctx type login window) w'.tokens)
    (hknows : Knows (loginLink ctx type login window) w'.tokens (log ++ [.called i c r]) i p')
    (hreturned : ∀ link, Restarting.returned (loginLink ctx type login window) link
      (log ++ [.called i c r]) =
        List.range' 1 (attemptsAt w'.tokens (loginLink ctx type login window link))) :
    Inv throttle ctx type login window w' (log ++ [.called i c r])
      (Function.update m i (some (f, p'))) where
  clock := hclock ▸ h.clock
  chain := hchain
  knows j g p hj := by
    by_cases hji : j = i
    · subst hji
      rw [Function.update_self] at hj
      cases hj
      exact hknows
    · rw [Function.update_of_ne hji] at hj
      exact (h.knows j g p hj).kept hkept _
  returned := hreturned
  ended j r' hj := by
    have hold : .ended j r' ∈ log := by simpa using hj
    have hji : j ≠ i := by
      rintro rfl
      exact hends r' hold
    rw [Function.update_of_ne hji]
    exact h.ended j r' hold
  nodup := by simpa [through, List.filterMap_append] using h.nodup

/-- A call that counts nothing is answered nothing. -/
theorem Inv.returned_of_none (h : Inv throttle ctx type login window w log m) {i : ℕ} {c : Call}
    {r : Answer c} (hsame : ∀ link, attemptsAt w'.tokens (loginLink ctx type login window link) =
      attemptsAt w.tokens (loginLink ctx type login window link))
    (hnone : ∀ link, Restarting.returned (loginLink ctx type login window) link
      ([.called i c r] : LoginLog type login) = []) (link : ℕ) :
    Restarting.returned (loginLink ctx type login window) link (log ++ [.called i c r]) =
      List.range' 1 (attemptsAt w'.tokens (loginLink ctx type login window link)) := by
  rw [hsame, ← h.returned link, returned_append, hnone, List.append_nil]

/-- A link tried: it was spent, and nothing moved, or its next number was answered. -/
theorem Inv.tried (h : Inv throttle ctx type login window w log m) {i : ℕ}
    {f : LoginFlow type login} {links : Links} {link : ℕ} {t : TokenRecord}
    (hends : ∀ r', .ended i r' ∉ log)
    (hhash : ∀ j, links.hash j = loginLink ctx type login window j)
    (hexec : exec (.countAttempt (loginLink ctx type login window link) .secondFactor) w =
      (some t, w')) :
    Inv throttle ctx type login window w'
      (log ++ [.called i (.countAttempt (loginLink ctx type login window link) .secondFactor) (some t)])
      (Function.update m i (some (f, after links link t))) := by
  obtain ⟨hr, rfl⟩ := Prod.mk.inj hexec
  obtain ⟨ht, s, hs, rfl⟩ := h.chain.countAttempt_some hr
  have hkept : Kept w.tokens
      (countAttempt w.tokens (loginLink ctx type login window link) .secondFactor).2 :=
    kept_countAttempt _ _
  have hchain := h.chain.countAttempt (loginLink ctx type login window link) .secondFactor
  by_cases hspent : s.spentAt = none
  · have hunspent : s.counted.spentAt = none := (counted_spentAt s).trans hspent
    have hafter : after links link s.counted = .passed links link s.counted.attempts := by
      rw [after, hunspent]
    rw [hafter]
    refine h.called hends rfl hkept hchain
      ⟨hhash, _, List.mem_append_right _ (List.mem_singleton_self _), hunspent, rfl⟩ fun l => ?_
    have hcount := attemptsAt_countAttempt hs (h.chain.kind link s hs) hspent
      (loginLink ctx type login window l)
    rw [returned_append, h.returned l]
    refine Eq.trans ?_ (congrArg (List.range' 1) hcount.symm)
    by_cases hl : link = l
    · subst hl
      have hnew : Restarting.returned (loginLink ctx type login window) link
          ([.called i (.countAttempt (loginLink ctx type login window link) .secondFactor)
            (some s.counted)] : LoginLog type login) = [s.attempts + 1] := by
        simp [Restarting.returned, hspent, counted_of_unspent hspent]
      rw [hnew, if_pos rfl, List.range'_1_concat, attemptsAt, hs, Option.elim_some, Nat.add_comm]
    · have hne : loginLink ctx type login window link ≠ loginLink ctx type login window l :=
        fun e => hl (loginLink_injective ctx type login window e)
      have hnew : Restarting.returned (loginLink ctx type login window) l
          ([.called i (.countAttempt (loginLink ctx type login window link) .secondFactor)
            (some s.counted)] : LoginLog type login) = [] := by
        simp [Restarting.returned, hne]
      rw [hnew, if_neg hne, List.append_nil, Nat.add_zero]
  · rw [counted_of_spent hspent] at ht ⊢
    have hsame : ∀ tokenHash, get (countAttempt w.tokens (loginLink ctx type login window link)
        .secondFactor).2 tokenHash = get w.tokens tokenHash :=
      countAttempt_of_spent fun t ht' _ => Option.some.inj (hs.symm.trans ht') ▸ hspent
    obtain ⟨at_, hat⟩ := Option.ne_none_iff_exists'.mp hspent
    have hafter : after links link s = .probing links (link + 1) := by rw [after, hat]
    rw [hafter]
    refine h.called hends rfl hkept hchain ⟨hhash, fun j hj => ?_⟩
      (h.returned_of_none (fun l => congrArg (Option.elim · 0 TokenRecord.attempts) (hsame _))
        fun l => by simp [Restarting.returned, hat])
    rcases Nat.lt_succ_iff_lt_or_eq.mp hj with hj | rfl
    · exact hchain.isSpent ht hj
    · exact ⟨s, ht, hspent⟩

/-- One answered call keeps every attempt numbered. -/
theorem Inv.step (h : Inv throttle ctx type login window w log m) {i : ℕ}
    {f : LoginFlow type login} {p p' : Phase} {c : Call} {r : Answer c} (hi : m i = some (f, p))
    (hends : ∀ r', .ended i r' ∉ log) (hexec : exec c w = (r, w'))
    (hstep : Step throttle ctx type login p c r p') :
    Inv throttle ctx type login window w' (log ++ [.called i c r])
      (Function.update m i (some (f, p'))) := by
  have hknows := h.knows i f p hi
  cases hstep with
  | now where_ t =>
    cases hexec
    refine h.called hends rfl (Kept.refl _) h.chain ⟨fun j => ?_, nofun⟩
      (h.returned_of_none (fun _ => rfl) fun _ => rfl)
    rw [Links.hash, linksAt]
    exact congrArg (loginLink ctx type login · j) h.clock
  | @absent links below link =>
    obtain ⟨hhash, hbelow⟩ := hknows
    obtain ⟨hr, rfl⟩ := Prod.mk.inj hexec
    rw [hhash] at hr ⊢
    obtain ⟨_, htokens⟩ := h.chain.countAttempt_none hr
    have hkept : Kept w.tokens
        (countAttempt w.tokens (loginLink ctx type login window link) .secondFactor).2 :=
      kept_countAttempt _ _
    exact h.called hends rfl hkept (h.chain.countAttempt _ _)
      ⟨hhash, fun j hj => hkept.isSpent (hbelow j hj)⟩
      (h.returned_of_none (fun _ => congrArg (attemptsAt · _) htokens) fun _ => rfl)
  | @tried links below link t =>
    obtain ⟨hhash, _⟩ := hknows
    rw [hhash] at hexec ⊢
    exact h.tried hends hhash hexec
  | @insert links below =>
    obtain ⟨hhash, hbelow⟩ := hknows
    cases hexec
    have hlink : (links.record (links.hash below)).tokenHash =
      loginLink ctx type login window below :=
      hhash below
    have hkept : Kept w.tokens (insertToken w.tokens (links.record (links.hash below))) :=
      kept_insertToken _
    exact h.called hends rfl hkept
      (h.chain.insertToken (loginLink_injective ctx type login window) hlink rfl hbelow)
      ⟨hhash, fun j hj => hkept.isSpent (hbelow j hj)⟩
      (h.returned_of_none (fun _ => attemptsAt_insertToken rfl _) fun _ => rfl)
  | @recount links below t =>
    obtain ⟨hhash, _⟩ := hknows
    rw [hhash] at hexec ⊢
    exact h.tried hends hhash hexec
  | @vanished links below =>
    obtain ⟨hhash, _⟩ := hknows
    obtain ⟨hr, rfl⟩ := Prod.mk.inj hexec
    rw [hhash] at hr ⊢
    obtain ⟨_, htokens⟩ := h.chain.countAttempt_none hr
    exact h.called hends rfl (kept_countAttempt _ _) (h.chain.countAttempt _ _) trivial
      (h.returned_of_none (fun _ => congrArg (attemptsAt · _) htokens) fun _ => rfl)
  | later t =>
    cases hexec
    exact h.called hends rfl (Kept.refl _) h.chain (hknows.kept (Kept.refl _) _)
      (h.returned_of_none (fun _ => rfl) fun _ => rfl)
  | @consume links link attempts at_ r =>
    cases hexec
    exact h.called hends rfl (kept_consumeToken _ _ _) (h.chain.consumeToken _ _ _)
      (hknows.kept (kept_consumeToken _ _ _) _)
      (h.returned_of_none (fun _ => attemptsAt_consumeToken ..) fun _ => rfl)

theorem Inv.beginning (h : Inv throttle ctx type login window w log m) {i : ℕ}
    (f : LoginFlow type login) (hi : m i = none) :
    Inv throttle ctx type login window w (log ++ [.began i f])
      (Function.update m i (some (f, .start))) where
  clock := h.clock
  chain := h.chain
  knows j g p hj := by
    by_cases hji : j = i
    · subst hji
      rw [Function.update_self] at hj
      cases hj
      exact trivial
    · rw [Function.update_of_ne hji] at hj
      exact (h.knows j g p hj).kept (Kept.refl _) _
  returned link := by
    rw [← h.returned link, returned_append]
    exact List.append_nil _
  ended j r hj := by
    have hold : .ended j r ∈ log := by simpa using hj
    obtain ⟨g, p, hp, hfinal⟩ := h.ended j r hold
    have hji : j ≠ i := by
      rintro rfl
      rw [hi] at hp
      cases hp
    exact ⟨g, p, (Function.update_of_ne hji ..).trans hp, hfinal⟩
  nodup := by simpa [through, List.filterMap_append] using h.nodup

theorem Inv.finishing (h : Inv throttle ctx type login window w log m) {i : ℕ}
    {f : LoginFlow type login} {p : Phase} {r : Except Failure LoginAnswer} (hi : m i = some (f, p))
    (hfinal : Final throttle f r p) (hends : ∀ r', .ended i r' ∉ log) :
    Inv throttle ctx type login window w (log ++ [.ended i r]) m where
  clock := h.clock
  chain := h.chain
  knows j g q hj := (h.knows j g q hj).kept (Kept.refl _) _
  returned link := by
    rw [← h.returned link, returned_append]
    exact List.append_nil _
  ended j r' hj := by
    rcases List.mem_append.mp hj with hj | hj
    · exact h.ended j r' hj
    · cases List.mem_singleton.mp hj
      exact ⟨f, p, hi, hfinal⟩
  nodup := by
    rw [through, List.filterMap_append]
    refine List.nodup_append.mpr ⟨h.nodup, ?_, fun j hj j' hj' => ?_⟩
    · rcases r with e | (_ | _) <;> simp
    · rintro rfl
      have hold := mem_through.mp hj
      have hnew := mem_through.mp hj'
      cases List.mem_singleton.mp hnew
      exact hends _ hold

/-- What may happen: anything within the window. -/
def Within (throttle : Throttle) (window : ℕ) (mv : Move Drift (LoginFlow type login)) : Prop :=
  ∀ t, mv = .drift (.tick t) → t / throttle.windowMs = window

theorem keeps (hthrottle : ctx.config.signInThrottle = some throttle) :
    (protocol type login hthrottle).Keeps (Within throttle window)
      (Inv throttle ctx type login window) where
  drift {w log m e} h hok := by
    cases e with
    | tick t => exact { h with clock := hok t rfl }
    | toss first => exact { h with clock := h.clock }
  began h hi _ := h.beginning _ hi
  called h hi hends hexec hstep := h.step hi hends hexec hstep
  ended h hi hfinal hends := h.finishing hi hfinal hends

/-- A login nobody tried in the window. -/
theorem Inv.start (hclock : w.clock / throttle.windowMs = window)
    (hempty : ∀ link, get w.tokens (loginLink ctx type login window link) = none) :
    Inv throttle ctx type login window w [] fun _ => none where
  clock := hclock
  chain :=
    { kind := fun l t ht => by rw [hempty] at ht; cases ht
      below := fun l t ht => by rw [hempty] at ht; cases ht }
  knows _ _ _ h := nomatch h
  returned link := by rw [attemptsAt, hempty]; rfl
  ended _ _ h := absurd h List.not_mem_nil
  nodup := List.nodup_nil

end Inv

/-! ## What the window lets through -/

/-- An attempt is counted on no spent link. -/
theorem Step.unspent {p p' : Phase} {c : Call} {r : Answer c} {w w' : World}
    (hstep : Step throttle ctx type login p c r p') (hexec : exec c w = (r, w')) {tokenHash : Str}
    (hne : attemptsAt w'.tokens tokenHash ≠ attemptsAt w.tokens tokenHash) :
    ∃ t, get w.tokens tokenHash = some t ∧ t.spentAt = none := by
  cases hstep with
  | now => cases hexec; exact absurd rfl hne
  | later => cases hexec; exact absurd rfl hne
  | insert => cases hexec; exact absurd (attemptsAt_insertToken rfl _) hne
  | consume => cases hexec; exact absurd (attemptsAt_consumeToken ..) hne
  | _ =>
    obtain ⟨-, rfl⟩ := Prod.mk.inj hexec
    exact unspent_of_attemptsAt_ne hne

/-- No more is let through than the limit on each link stored. -/
theorem Inv.length_through {window : ℕ} {w : World}
    {m : ℕ → Option (LoginFlow type login × Phase)} (h : Inv throttle ctx type login window w log m)
    {k : ℕ} (hk : ∀ l, (get w.tokens (loginLink ctx type login window l)).isSome ↔ l < k) :
    (through log).length ≤ throttle.attempts * k := by
  have hpair : ∀ i ∈ through log, ∃ q ∈ Finset.range k ×ˢ Finset.Icc 1 throttle.attempts,
      Numbered (loginLink ctx type login window) log i q.1 q.2 := by
    intro i hi
    obtain ⟨f, p, hp, hfinal⟩ := h.ended i _ (mem_through.mp hi)
    cases f with
    | restart => cases hfinal
    | attempt =>
      obtain ⟨links, l, a, rfl, hle⟩ := hfinal
      have hcounted := (h.knows i _ _ hp).2
      have hmem := hcounted.mem_returned
      rw [h.returned, List.mem_range'_1] at hmem
      refine ⟨(l, a), ?_, hcounted⟩
      refine Finset.mem_product.mpr ⟨Finset.mem_range.mpr ((hk l).mp ?_),
        Finset.mem_Icc.mpr ⟨hmem.1, hle⟩⟩
      cases hstored : get w.tokens (loginLink ctx type login window l) with
      | none => simp [attemptsAt, hstored] at hmem; omega
      | some t => rfl
  choose! pair hmem hcounted using hpair
  have hinj : Set.InjOn pair (through log).toFinset := by
    intro i hi j hj heq
    have hi := hcounted i (List.mem_toFinset.mp hi)
    have hj := hcounted j (List.mem_toFinset.mp hj)
    rw [← heq] at hj
    exact hi.unique hj (h.returned _ ▸ List.nodup_range')
  have hcard := Finset.card_le_card_of_injOn pair
    (fun i hi => hmem i (List.mem_toFinset.mp hi)) hinj
  rw [List.toFinset_card_of_nodup h.nodup, Finset.card_product, Finset.card_range, Nat.card_Icc,
    Nat.add_sub_cancel] at hcard
  rwa [Nat.mul_comm]

end Restarting

open Restarting in
/-- **The restarting window admits no extra guess.**  However attempts and restarts at one login
interleave within a window nobody tried it in yet: the links stored are those below some `k`, each
but the last of them spent; an attempt is only ever counted on an unspent link; the attempts
answered on a link are one to their number, each once; whoever is let through was counted so, within
the limit; and no more are let through than the limit for each link spent, and one limit more. -/
theorem restarting_admits_no_extra_guess {throttle : Throttle}
    (hthrottle : ctx.config.signInThrottle = some throttle) {w : World} {window : ℕ}
    (hclock : w.clock / throttle.windowMs = window)
    (hempty : ∀ l, get w.tokens (loginLink ctx type login window l) = none)
    {moves : List (Move Drift (LoginFlow type login))}
    (hwithin : ∀ mv ∈ moves, Within throttle window mv) :
    let run := (loginService ctx type login).run w
    let link := loginLink ctx type login window
    let log := (run moves).log
    let tokens := (run moves).world.tokens
    (∃ k, (∀ l, (get tokens (link l)).isSome ↔ l < k) ∧ ∀ l, l + 1 < k → IsSpent tokens (link l)) ∧
    (∀ before mv more l, moves = before ++ mv :: more →
      attemptsAt (run (before ++ [mv])).world.tokens (link l) ≠
        attemptsAt (run before).world.tokens (link l) →
      ∃ t, get (run before).world.tokens (link l) = some t ∧ t.spentAt = none) ∧
    (∀ l, returned link l log = List.range' 1 (attemptsAt tokens (link l))) ∧
    (∀ i ∈ through log, ∃ l a, Numbered link log i l a ∧ a ≤ throttle.attempts) ∧
    (through log).length ≤ throttle.attempts * (1 + {l | IsSpent tokens (link l)}.ncard) := by
  have hstart := Inv.start hclock hempty
  obtain ⟨m, _, hinv⟩ := (keeps hthrottle).run hstart hwithin
  obtain ⟨k, hk, hbelow⟩ := hinv.chain.exists_length (loginLink_injective ctx type login window)
  refine ⟨⟨k, hk, hbelow⟩, fun before mv more l hmoves hne => ?_, hinv.returned, fun i hi => ?_, ?_⟩
  case refine_1 =>
    subst hmoves
    obtain ⟨m, hmatches, _⟩ := (keeps hthrottle).run hstart fun mv h =>
      hwithin mv (List.mem_append_left _ h)
    rw [Service.run_append] at hne
    cases mv with
    | begin f => exact absurd rfl hne
    | drift e => cases e <;> exact absurd rfl hne
    | step i =>
      rw [List.foldl_cons, List.foldl_nil, Service.move] at hne
      split at hne
      case h_2 => exact absurd rfl hne
      case h_1 f c next hi =>
        obtain ⟨⟨p, _, hstands⟩, _⟩ := hmatches.of_some hi
        obtain ⟨p', hstep, _⟩ := hstands _ _ rfl
        exact Step.unspent hstep rfl hne
  case refine_2 =>
    obtain ⟨f, p, hp, hfinal⟩ := hinv.ended i _ (mem_through.mp hi)
    cases f with
    | restart => cases hfinal
    | attempt =>
      obtain ⟨links, l, a, rfl, hle⟩ := hfinal
      exact ⟨l, a, (hinv.knows i _ _ hp).2, hle⟩
  case refine_3 =>
    have hsub : ((Finset.range (k - 1) : Finset ℕ) : Set ℕ) ⊆
        {l | IsSpent (((loginService ctx type login).run w moves).world.tokens)
          (loginLink ctx type login window l)} := by
      intro l hl
      exact hbelow l (by have := Finset.mem_range.mp (Finset.mem_coe.mp hl); omega)
    have hfinite : {l | IsSpent (((loginService ctx type login).run w moves).world.tokens)
        (loginLink ctx type login window l)}.Finite := by
      refine (Finset.range k).finite_toSet.subset fun l hl => ?_
      obtain ⟨t, ht, -⟩ := hl
      exact Finset.mem_coe.mpr (Finset.mem_range.mpr ((hk l).mp (ht ▸ rfl)))
    have hcard := Set.ncard_le_ncard hsub hfinite
    rw [Set.ncard_coe_finset, Finset.card_range] at hcard
    exact (hinv.length_through hk).trans (Nat.mul_le_mul_left _ (by omega))

/-- Ada tries a password, signs in, and tries another. -/
def triedAgain : List (Move Drift (LoginFlow patient (js "ada@clinic.test"))) :=
  .begin (.attempt []) :: List.replicate 4 (.step 0) ++
    .drift (.tick 1000) :: .begin (.restart ada rfl []) :: List.replicate 4 (.step 1) ++
    .begin (.attempt []) :: List.replicate 6 (.step 2)

open Restarting in
/-- Both are let through, on two links. -/
theorem restarting_admits_ada_twice :
    let log := ((loginService clinic patient (js "ada@clinic.test")).run
      ⟨[], [], [], 0, 0, false⟩ triedAgain).log
    through log = [0, 2] ∧
      ∀ i ∈ through log, ∃ l a,
        Numbered (loginLink clinic patient (js "ada@clinic.test") 0) log i l a ∧ a ≤ 2 := by
  have hwithin : ∀ mv ∈ triedAgain, Within ⟨2, 900000⟩ 0 mv := by
    intro mv hmv t ht
    subst ht
    obtain rfl : t = 1000 := by simpa [triedAgain] using hmv
    rfl
  exact ⟨by decide +kernel, (@restarting_admits_no_extra_guess clinic patient _ ⟨2, 900000⟩ rfl
    ⟨[], [], [], 0, 0, false⟩ 0 rfl (fun _ => rfl) _ hwithin).2.2.2.1⟩

end Janus.Auth
