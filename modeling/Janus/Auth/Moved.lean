import Janus.Auth.Moving

/-!
# Auth/Moved — a link, and the address it was asked from

    stored ──────▸ taken ──────▸ read ──▸ written
       no way back to the address ┘└ the version holds

A link is bound to an address, not to a stay there: so what keeps it from outliving the stay is that
every way back to the address comes with the links spent (`Clear`), and then the user never left
(`link_dies`).  An `update` spends them in a call of its own, after its write, and a link taken
between the two is redeemed (`link_revived`).
-/

namespace Janus.Auth

open Js Insertion Calls

/-- The log of a run of these flows. -/
abbrev MoveLog (ctx : Context) := List (MoveEntry ctx)

namespace Moving

/-! ## A stretch of the log -/

section Stretch

variable {ctx : Context} {w₀ : World} {id address : Str} {b l₂ : MoveLog ctx} {e : MoveEntry ctx}

/-- The user's address, as the writes of the log leave it. -/
def addressAfter (ctx : Context) (w₀ : World) (id : Str) (log : MoveLog ctx) : Option Str :=
  (recordAfter w₀ id log).map (addressOf ctx)

/-- An entry brings the user to an address they were not at. -/
def Returns (ctx : Context) (w₀ : World) (id address : Str) (log : MoveLog ctx)
    (e : MoveEntry ctx) :
    Prop :=
  (written id e).map (addressOf ctx) = some address ∧ addressAfter ctx w₀ id log ≠ some address

/-- No entry of the stretch does. -/
def Stays (ctx : Context) (w₀ : World) (id address : Str) (b l₂ : MoveLog ctx) : Prop :=
  ∀ l e l', l₂ = l ++ e :: l' → ¬ Returns ctx w₀ id address (b ++ l) e

theorem addressAfter_of_writeless {log : MoveLog ctx} (h : written id e = none) :
    addressAfter ctx w₀ id (log ++ [e]) = addressAfter ctx w₀ id log := by
  rw [addressAfter, recordAfter_concat, h, Option.none_or, addressAfter]

theorem Stays.nil : Stays ctx w₀ id address b [] := fun _ _ _ h =>
  nomatch (List.append_eq_nil_iff.mp h.symm).2

theorem Stays.concat (h : Stays ctx w₀ id address b l₂)
    (he : ¬ Returns ctx w₀ id address (b ++ l₂) e) : Stays ctx w₀ id address b (l₂ ++ [e]) := by
  intro l e' l' hl
  obtain ⟨rfl, rfl⟩ | ⟨l₃, -, hold⟩ := concat_eq_append_cons hl
  · exact he
  · exact h l e' l₃ hold

/-- **Nobody came back, and the user is there: so they never left.** -/
theorem Stays.held (h : Stays ctx w₀ id address b l₂)
    (hend : addressAfter ctx w₀ id (b ++ l₂) = some address) :
    ∀ l, l <+: l₂ → addressAfter ctx w₀ id (b ++ l) = some address := by
  induction l₂ using List.reverseRecOn with
  | nil =>
    intro l hl
    rwa [List.prefix_nil.mp hl]
  | append_singleton l₂ e ih =>
    intro l hl
    obtain rfl | hl := List.prefix_concat_iff.mp hl
    · exact hend
    · refine ih (fun l e' l' hl₂ => h l e' (l' ++ [e]) (by rw [hl₂, List.append_assoc]; rfl)) ?_ l hl
      rw [← List.append_assoc, addressAfter, recordAfter_concat] at hend
      cases hw : written id e with
      | none => rwa [hw, Option.none_or] at hend
      | some new =>
        by_contra hne
        refine h l₂ e [] rfl ⟨?_, hne⟩
        rwa [hw, Option.some_or, ← hw] at hend

end Stretch

/-! ## Where a run is clear of the gap -/

section Clear

variable {ctx : Context}

/-- The links of the user, spent by a flow. -/
def Spends (i : ℕ) (userId : Str) (e : MoveEntry ctx) : Prop :=
  ∃ at_ n, e = .called i (.spendUserTokens userId .changeEmail at_ none) n

/-- A link, taken unspent by a confirmation. -/
def Takes (i : ℕ) (token : TokenRecord) (e : MoveEntry ctx) : Prop :=
  token.spentAt = none ∧ ∃ hash at_, e = .called i
  (.consumeToken hash .changeEmail at_) (some token)

/-- After its write, a flow has neither spent the user's links nor ended. -/
def Owes (i : ℕ) (userId : Str) (after : MoveLog ctx) : Prop :=
  (∀ e ∈ after, ¬ Spends i userId e) ∧ ∀ r, .ended i r ∉ after

/-- A user read by a flow. -/
def isRead (i : ℕ) : MoveEntry ctx → Bool
  | .called j (.findUser _) _ => j = i
  | _ => false

/-- After its taking, a confirmation has yet to read the user for its write: it reads them twice. -/
def Reading (i : ℕ) (after : MoveLog ctx) : Prop :=
  after.countP (isRead i) < 2 ∧ ∀ r, .ended i r ∉ after

/-- An entry keeps clear of the gap between a way back to an address and the links spent. -/
structure Clear (ctx : Context) (w₀ : World) (log : MoveLog ctx) (e : MoveEntry ctx) : Prop where
  /-- A link is taken only when all who came back to its address since it was stored were `update`s,
  none of them with the links still to spend. -/
  take : ∀ i token secret address, Takes i token e → Binds ctx token secret address →
    ∀ l₁ e' l₂, log = l₁ ++ e' :: l₂ →
      (∃ j stored, .called j (.insertToken stored) () ∈ l₁ ∧ stored.tokenHash = token.tokenHash) →
      Returns ctx w₀ token.userId address l₁ e' →
      (∃ f, .began e'.thread f ∈ log ∧ f.isUpdate = true) ∧ ¬ Owes e'.thread token.userId l₂
  /-- Nobody comes back to a link's address while a confirmation that took it has yet to read the
  user for its write. -/
  move : ∀ i token secret address l₁ e' l₂, log = l₁ ++ e' :: l₂ → Takes i token e' →
    Binds ctx token secret address → Returns ctx w₀ token.userId address log e → ¬ Reading i l₂

end Clear

/-! ## The links stored -/

/-- A link as it is and as it was stored: but for its attempts, and for being spent since. -/
def Alike (t token : TokenRecord) : Prop :=
  t.tokenHash = token.tokenHash ∧ t.kind = token.kind ∧ t.userId = token.userId ∧
    t.codeHash = token.codeHash

theorem Alike.binds {ctx : Context} {t token : TokenRecord} {secret address : Str}
    (h : Alike t token) (hbinds : Binds ctx token secret address) : Binds ctx t secret address :=
  ⟨h.2.1.trans hbinds.kind, h.1.trans hbinds.hash, h.2.2.2.trans hbinds.bound⟩

/-- A token written over, and unspent only if it was. -/
def Came (t' t : TokenRecord) : Prop := Alike t' t ∧ (t'.spentAt = none → t.spentAt = none)

theorem Came.refl (t : TokenRecord) : Came t t := ⟨⟨rfl, rfl, rfl, rfl⟩, fun h => h⟩

theorem came_spent (at_ : Time) (t : TokenRecord) : Came (t.spent at_) t := by
  rw [TokenRecord.spent]
  split
  case isTrue => exact ⟨⟨rfl, rfl, rfl, rfl⟩, nofun⟩
  case isFalse => exact Came.refl t

theorem came_counted (t : TokenRecord) : Came t.counted t := by
  rw [TokenRecord.counted]
  split <;> exact ⟨⟨rfl, rfl, rfl, rfl⟩, fun h => h⟩

theorem spent_ne (at_ : Time) (t : TokenRecord) : (t.spent at_).spentAt ≠ none := by
  rw [TokenRecord.spent]
  split
  case isTrue => nofun
  case isFalse h => exact h

/-- **A token stored was there before**, or is the one just stored. -/
theorem came_exec {c : Call} {r : Answer c} {w w' : World} {hash : Str} {t' : TokenRecord}
    (hexec : exec c w = (r, w')) (ht' : get w'.tokens hash = some t') :
    (∃ t, get w.tokens hash = some t ∧ Came t' t) ∨
      ∃ record, c = .insertToken record ∧ t' = record ∧ record.tokenHash = hash := by
  obtain rfl : (exec c w).2 = w' := congrArg Prod.snd hexec
  have hwrite : ∀ {kind : TokenKind} {tokenHash : Str} {write : TokenRecord → TokenRecord},
      (∀ t, Came (write t) t) → get (writeToken w.tokens tokenHash kind write) hash = some t' →
      ∃ t, get w.tokens hash = some t ∧ Came t' t := by
    intro kind tokenHash write hcame ht'
    rw [get_writeToken] at ht'
    obtain ⟨t, ht, rfl⟩ := Option.map_eq_some_iff.mp ht'
    refine ⟨t, ht, ?_⟩
    split
    · exact hcame t
    · exact Came.refl t
  cases c with
  | insertToken record =>
    dsimp only [exec] at ht'
    rw [get_insertToken] at ht'
    split at ht'
    case isTrue h =>
      cases hold : get w.tokens hash with
      | some t =>
        rw [hold] at ht'
        cases ht'
        exact Or.inl ⟨_, rfl, Came.refl _⟩
      | none =>
        rw [hold] at ht'
        cases ht'
        exact Or.inr ⟨_, rfl, rfl, h⟩
    case isFalse => exact Or.inl ⟨t', ht', Came.refl t'⟩
  | consumeToken tokenHash kind at_ => exact Or.inl (hwrite (came_spent at_) ht')
  | countAttempt tokenHash kind => exact Or.inl (hwrite came_counted ht')
  | spendUserTokens userId kind at_ except =>
    refine Or.inl ?_
    obtain ⟨t, ht, rfl⟩ := Option.map_eq_some_iff.mp
      ((get_spendUserTokens userId kind at_ except hash).symm.trans ht')
    refine ⟨t, ht, ?_⟩
    split
    · exact came_spent at_ t
    · exact Came.refl t
  | _ => exact Or.inl ⟨t', ht', Came.refl t'⟩

/-- A link unspent is not of a user whose links were just spent. -/
theorem ne_of_spendUserTokens {tokens : List (Str × TokenRecord)} {userId hash : Str}
    {kind : TokenKind}
    {at_ : Time} {t : TokenRecord}
    (h : get (spendUserTokens tokens userId kind at_ none).2 hash = some t)
    (hkind : t.kind = kind) (hunspent : t.spentAt = none) : t.userId ≠ userId := by
  intro huser
  obtain ⟨t₀, -, ht⟩ := Option.map_eq_some_iff.mp ((get_spendUserTokens _ _ _ _ hash).symm.trans h)
  split at ht
  case isTrue =>
    subst ht
    exact spent_ne at_ t₀ hunspent
  case isFalse hof =>
    subst ht
    exact hof (decide_eq_true ⟨nofun, huser, hkind⟩)

/-! ## The invariant -/

section Inv

variable {ctx : Context} {w₀ w w' : World} {log b l₂ : MoveLog ctx} {i j : ℕ} {f : MoveFlow ctx}
  {p p' : Phase} {c : Call} {r : Answer c} {e : MoveEntry ctx}
  {m : ℕ → Option (MoveFlow ctx × Phase)}

/-- A log ends with a link stored, asked from the address its user was read at. -/
structure Stored (ctx : Context) (b : MoveLog ctx) (token : TokenRecord) (secret address : Str) :
    Prop where
  binds : Binds ctx token secret address
  asked : ∃ l j id record, b = l ++ [.called j (.insertToken token) ()] ∧
    .called j (.findUser id) (some record) ∈ l ∧ record.id = token.userId ∧
    addressOf ctx record = address

/-- Whoever came back to a link's address is a confirmation, or an `update` that owes its spending.
-/
def Awaited (ctx : Context) (w₀ : World) (m : ℕ → Option (MoveFlow ctx × Phase)) (id address : Str)
    (b l₂ : MoveLog ctx) : Prop :=
  ∀ l e l', l₂ = l ++ e :: l' → Returns ctx w₀ id address (b ++ l) e →
    ∃ f p, m e.thread = some (f, p) ∧ (f.isUpdate = true → ∃ new, p = .owing new ∧ new.id = id)

/-- A link taken, whose user nobody brought back since it was stored, and the reads since. -/
def Taken (ctx : Context) (w₀ : World) (log : MoveLog ctx) (i : ℕ) (secret : Str)
    (token : TokenRecord) (reads : ℕ) : Prop :=
  (∃ stored address b l₂, log = b ++ l₂ ∧ Stored ctx b stored secret address ∧ Alike token stored ∧
    Stays ctx w₀ token.userId address b l₂) ∧
  ∃ l₃ e l₄, log = l₃ ++ e :: l₄ ∧ Takes i token e ∧ l₄.countP (isRead i) = reads ∧
    ∀ r, .ended i r ∉ l₄

/-- A link taken, whose user was at its address from when it was stored, if this is still the user.
-/
def Checked (ctx : Context) (w₀ : World) (log : MoveLog ctx) (secret : Str) (record : UserRecord) :
    Prop :=
  ∃ stored address b l₂, log = b ++ l₂ ∧ Stored ctx b stored secret address ∧
    stored.userId = record.id ∧ (recordAfter w₀ record.id log = some record →
      ∀ l, l <+: l₂ → addressAfter ctx w₀ record.id (b ++ l) = some address)

/-- A link confirmed, whose user was at its address from when it was stored to the write. -/
def Kept (ctx : Context) (w₀ : World) (log : MoveLog ctx) (i : ℕ) (secret : Str) : Prop :=
  ∃ token address b l₂ patch v new l₃,
    log = b ++ l₂ ++ .called i (.updateUser token.userId patch v) (.ok new) :: l₃ ∧
    Stored ctx b token secret address ∧
    ∀ l, l <+: l₂ → addressAfter ctx w₀ token.userId (b ++ l) = some address

/-- What the log holds of a flow. -/
def Stands (ctx : Context) (w₀ : World) (log : MoveLog ctx) (i : ℕ) : Phase → Prop
  | .idle => ∀ e ∈ log, ∀ userId, ¬ Spends i userId e
  | .read record => (∀ e ∈ log, ∀ userId, ¬ Spends i userId e) ∧
    ∃ id, .called i (.findUser id) (some record) ∈ log
  | .owing _ => (∀ e ∈ log, ∀ userId, ¬ Spends i userId e) ∧ ∀ r, .ended i r ∉ log
  | .took secret token => (∀ r, .ended i r ∉ log) → Taken ctx w₀ log i secret token 0
  | .found secret token user => ((∀ r, .ended i r ∉ log) → Taken ctx w₀ log i secret token 1) ∧
    user.id = token.userId
  | .checked secret token record => record.id = token.userId ∧ Checked ctx w₀ log secret record
  | .wrote secret => Kept ctx w₀ log i secret
  | .over => True

/-- The last record a flow read, to write it. -/
def Phase.seen : Phase → Option UserRecord
  | .read record | .checked _ _ record => some record
  | _ => none

structure Inv (ctx : Context) (w₀ w : World) (log : MoveLog ctx)
    (m : ℕ → Option (MoveFlow ctx × Phase)) : Prop where
  histories : Histories w₀ w log fun i => (m i).bind fun q => q.2.seen
  links : ∀ hash t, get w.tokens hash = some t → t.kind = .changeEmail → t.tokenHash = hash ∧
    ∃ token secret address b l₂, log = b ++ l₂ ∧ Stored ctx b token secret address ∧ Alike t token ∧
      (t.spentAt = none → Awaited ctx w₀ m token.userId address b l₂)
  stands : ∀ i f p, m i = some (f, p) → Stands ctx w₀ log i p
  known : ∀ i, m i = none → ∀ e ∈ log, e.thread ≠ i
  began : ∀ i f, .began i f ∈ log → ∃ p, m i = some (f, p)

/-! ### One entry more -/

theorem mem_concat {e' : MoveEntry ctx} (h : e' ∈ log ++ [e]) : e' ∈ log ∨ e' = e :=
  (List.mem_append.mp h).imp_right List.mem_singleton.mp

theorem notMem_concat {e' : MoveEntry ctx} (h : e' ∉ log) (he : e ≠ e') : e' ∉ log ++ [e] :=
  fun h' => (mem_concat h').elim h fun heq => he heq.symm

theorem spends_thread {userId : Str} (h : Spends i userId e) : e.thread = i := by
  obtain ⟨at_, n, rfl⟩ := h
  rfl

theorem isRead_thread (h : isRead i e = true) : e.thread = i := by
  unfold isRead at h
  split at h
  case h_1 => exact of_decide_eq_true h
  case h_2 => cases h

theorem Aside.writeless (h : Aside c) : c.Writeless := by
  cases c with
  | updateUser => exact h
  | _ => trivial

theorem Aside.unwritten (h : Aside c) (i : ℕ) (id : Str) :
    written id (.called i c r : MoveEntry ctx) = none := written_of_writeless h.writeless id

theorem Aside.unread (h : Aside c) (i : ℕ) : isRead i (.called i c r : MoveEntry ctx) = false := by
  cases c with
  | findUser => exact h.elim
  | _ => rfl

theorem Aside.unspending (h : Aside c) (i : ℕ) (userId : Str) :
    ¬ Spends i userId (.called i c r : MoveEntry ctx) := by
  rintro ⟨at_, n, he⟩
  cases c with
  | spendUserTokens _ kind =>
    cases he
    exact h rfl
  | _ => cases he

theorem unspending_concat (h : ∀ e ∈ log, ∀ userId, ¬ Spends i userId e)
    (he : ∀ userId, ¬ Spends i userId e) : ∀ e' ∈ log ++ [e], ∀ userId, ¬ Spends i userId e' := by
  intro e' he' userId
  obtain he' | rfl := mem_concat he'
  · exact h e' he' userId
  · exact he userId

theorem Taken.concat {secret : Str} {token : TokenRecord} {n k : ℕ}
    (h : Taken ctx w₀ log i secret token n) (hread : [e].countP (isRead i) = k)
    (hend : ∀ r, e ≠ .ended i r)
    (hreturn : ∀ address, Binds ctx token secret address →
      ¬ Returns ctx w₀ token.userId address log e) :
    Taken ctx w₀ (log ++ [e]) i secret token (n + k) := by
  obtain ⟨⟨stored, address, b, l₂, rfl, hstored, halike, hstays⟩, l₃, e', l₄, hlog, htakes,
    hn, hends⟩ := h
  refine ⟨⟨stored, address, b, l₂ ++ [e], List.append_assoc .., hstored, halike,
    hstays.concat (hreturn address (halike.binds hstored.binds))⟩,
    l₃, e', l₄ ++ [e], ?_, htakes, ?_, fun r => notMem_concat (hends r) (hend r)⟩
  · rw [hlog, List.append_assoc, List.cons_append]
  · rw [List.countP_append, hn, hread]

theorem Checked.concat {secret : Str} {record : UserRecord} (h : Checked ctx w₀ log secret record)
    (hnew : ∀ new, written record.id e = some new → new ≠ record) :
    Checked ctx w₀ (log ++ [e]) secret record := by
  obtain ⟨stored, address, b, l₂, rfl, hstored, huser, hheld⟩ := h
  refine ⟨stored, address, b, l₂ ++ [e], List.append_assoc .., hstored, huser, fun hcurrent => ?_⟩
  rw [recordAfter_concat] at hcurrent
  cases hw : written record.id e with
  | some new =>
    rw [hw, Option.some_or] at hcurrent
    exact absurd (Option.some.inj hcurrent) (hnew new hw)
  | none =>
    rw [hw, Option.none_or] at hcurrent
    intro l hl
    obtain rfl | hl := List.prefix_concat_iff.mp hl
    · rw [← List.append_assoc, addressAfter_of_writeless hw]
      exact hheld hcurrent l₂ (List.prefix_refl _)
    · exact hheld hcurrent l hl

theorem Kept.concat {secret : Str} (h : Kept ctx w₀ log i secret) :
    Kept ctx w₀ (log ++ [e]) i secret := by
  obtain ⟨token, address, b, l₂, patch, v, new, l₃, rfl, hstored, hheld⟩ := h
  exact ⟨token, address, b, l₂, patch, v, new, l₃ ++ [e], by simp, hstored, hheld⟩

/-- An entry that is no part of what a flow does leaves where it stands. -/
theorem Stands.concat (h : Stands ctx w₀ log i p) (hspends : ∀ userId, ¬ Spends i userId e)
    (hread : isRead i e = false) (hends : ∀ r, e ≠ .ended i r)
    (hreturn : ∀ {secret : Str} {token : TokenRecord} {n : ℕ}, n < 2 →
      Taken ctx w₀ log i secret token n → ∀ address, Binds ctx token secret address →
        ¬ Returns ctx w₀ token.userId address log e)
    (hnew : ∀ record, p.seen = some record → ∀ new, written record.id e = some new → new ≠ record) :
    Stands ctx w₀ (log ++ [e]) i p := by
  have hcount : [e].countP (isRead i) = 0 := by rw [List.countP_singleton, hread]; rfl
  cases p with
  | idle => exact unspending_concat h hspends
  | read record => exact ⟨unspending_concat h.1 hspends, h.2.imp fun _ => List.mem_append_left _⟩
  | owing new => exact ⟨unspending_concat h.1 hspends, fun r => notMem_concat (h.2 r) (hends r)⟩
  | took secret token =>
    intro hnot
    have htaken := h fun r hr => hnot r (List.mem_append_left _ hr)
    exact htaken.concat hcount hends (hreturn (by decide) htaken)
  | found secret token user =>
    refine ⟨fun hnot => ?_, h.2⟩
    have htaken := h.1 fun r hr => hnot r (List.mem_append_left _ hr)
    exact htaken.concat hcount hends (hreturn (by decide) htaken)
  | checked secret token record => exact ⟨h.1, h.2.concat (hnew record rfl)⟩
  | wrote secret => exact Kept.concat h
  | _ => trivial

/-- …as one of another flow, which brings nobody back to a link taken, -/
theorem Stands.other (h : Stands ctx w₀ log i p) (he : e.thread ≠ i) (hclear : Clear ctx w₀ log e)
    (hnew : ∀ record, p.seen = some record → ∀ new, written record.id e = some new → new ≠ record) :
    Stands ctx w₀ (log ++ [e]) i p := by
  refine h.concat (fun _ hs => he (spends_thread hs)) ?_ ?_ ?_ hnew
  · exact Bool.eq_false_of_not_eq_true fun hread => he (isRead_thread hread)
  · rintro r rfl
    exact he rfl
  · rintro secret token n hn ⟨-, l₃, e', l₄, hlog, htakes, rfl, hnot⟩ address hbinds hreturns
    exact hclear.move i token secret address l₃ e' l₄ hlog htakes hbinds hreturns ⟨hn, hnot⟩

/-- …or a call aside. -/
theorem Stands.aside (h : Stands ctx w₀ log i p) (hc : Aside c) :
    Stands ctx w₀ (log ++ [.called i c r]) i p := by
  have hw : ∀ id, written id (.called i c r : MoveEntry ctx) = none := hc.unwritten i
  refine h.concat (hc.unspending i) (hc.unread i) (by rintro _ ⟨⟩) (fun _ _ _ _ hreturns => ?_)
    fun record _ new hnew => ?_
  · have hmoved := hreturns.1
    rw [hw] at hmoved
    cases hmoved
  · rw [hw] at hnew
    cases hnew

/-- Whoever came back is awaited still, where the flow that moves owes what it owed. -/
theorem Awaited.concat {id address : Str} (h : Awaited ctx w₀ m id address b l₂)
    (hi : m i = some (f, p))
    (he : Returns ctx w₀ id address (b ++ l₂) e → e.thread = i ∧
      (f.isUpdate = true → ∃ new, p' = .owing new ∧ new.id = id))
    (hp : ∀ new, p = .owing new → new.id = id → p' = p) :
    Awaited ctx w₀ (Function.update m i (some (f, p'))) id address b (l₂ ++ [e]) := by
  intro l e' l' hl hreturns
  obtain ⟨rfl, rfl⟩ | ⟨l₃, -, hold⟩ := concat_eq_append_cons hl
  · obtain ⟨rfl, howes⟩ := he hreturns
    exact ⟨f, p', Function.update_self .., howes⟩
  · obtain ⟨g, q, hg, howes⟩ := h l e' l₃ hold hreturns
    by_cases hthread : e'.thread = i
    · rw [hthread] at hg ⊢
      cases hi.symm.trans hg
      refine ⟨f, p', Function.update_self .., fun hf => ?_⟩
      obtain ⟨new, rfl, hnew⟩ := howes hf
      exact ⟨new, hp new rfl hnew, hnew⟩
    · exact ⟨g, q, (Function.update_of_ne hthread _ m).trans hg, howes⟩

/-! ### One call -/

/-- The links after a call: those there were, still awaited, and the one stored by it. -/
theorem Inv.links_step (h : Inv ctx w₀ w log m) (hi : m i = some (f, p))
    (hexec : exec c w = (r, w'))
    (hreturn : ∀ id address, Returns ctx w₀ id address log (.called i c r) →
      f.isUpdate = true → ∃ new, p' = .owing new ∧ new.id = id)
    (howing : ∀ hash t, get w'.tokens hash = some t → t.kind = .changeEmail → t.spentAt = none →
      ∀ new, p = .owing new → new.id = t.userId → p' = p)
    (hfresh : ∀ record, c = .insertToken record → record.kind = .changeEmail →
      ∃ secret address, Stored ctx (log ++ [.called i c r]) record secret address) :
    ∀ hash t, get w'.tokens hash = some t → t.kind = .changeEmail → t.tokenHash = hash ∧
      ∃ token secret address b l₂, log ++ [.called i c r] = b ++ l₂ ∧
        Stored ctx b token secret address ∧ Alike t token ∧ (t.spentAt = none →
          Awaited ctx w₀ (Function.update m i (some (f, p'))) token.userId address b l₂) := by
  intro hash t' ht' hkind
  obtain ⟨t, ht, hcame, hunspent⟩ | ⟨record, rfl, rfl, hhash⟩ := came_exec hexec ht'
  · obtain ⟨hhash, token, secret, address, b, l₂, rfl, hstored, halike, hawaited⟩ :=
      h.links hash t ht (hcame.2.1.symm.trans hkind)
    have halike' : Alike t' token := ⟨hcame.1.trans halike.1, hcame.2.1.trans halike.2.1,
      hcame.2.2.1.trans halike.2.2.1, hcame.2.2.2.trans halike.2.2.2⟩
    refine ⟨hcame.1.trans hhash, token, secret, address, b, l₂ ++ [.called i c r],
      List.append_assoc .., hstored, halike', fun hnone => ?_⟩
    refine (hawaited (hunspent hnone)).concat hi (fun hreturns => ⟨rfl, hreturn _ _ hreturns⟩) ?_
    exact fun new hp hid => howing hash t' ht' hkind hnone new hp (hid.trans halike'.2.2.1.symm)
  · obtain ⟨secret, address, hstored⟩ := hfresh t' rfl hkind
    refine ⟨hhash, t', secret, address, _, [], (List.append_nil _).symm, hstored,
      ⟨rfl, rfl, rfl, rfl⟩,
      fun _ => ?_⟩
    exact fun _ _ _ hl => nomatch (List.append_eq_nil_iff.mp hl.symm).2

/-- A call answered, where the history goes on, the links are awaited, and its own flow stands. -/
theorem Inv.called (h : Inv ctx w₀ w log m) (hi : m i = some (f, p))
    (hclear : Clear ctx w₀ log (.called i c r))
    (hhistories : Histories w₀ w' (log ++ [.called i c r]) fun j =>
      (Function.update m i (some (f, p')) j).bind fun q => q.2.seen)
    (hlinks : ∀ hash t, get w'.tokens hash = some t → t.kind = .changeEmail → t.tokenHash = hash ∧
      ∃ token secret address b l₂, log ++ [.called i c r] = b ++ l₂ ∧
        Stored ctx b token secret address ∧ Alike t token ∧ (t.spentAt = none →
          Awaited ctx w₀ (Function.update m i (some (f, p'))) token.userId address b l₂))
    (hnew : ∀ j record, ((m j).bind fun q => q.2.seen) = some record →
      ∀ new, written record.id (.called i c r : MoveEntry ctx) = some new → new ≠ record)
    (hstands : Stands ctx w₀ (log ++ [.called i c r]) i p') :
    Inv ctx w₀ w' (log ++ [.called i c r]) (Function.update m i (some (f, p'))) where
  histories := hhistories
  links := hlinks
  stands j g q hj := by
    obtain ⟨rfl, heq⟩ | ⟨hji, hj⟩ := update_eq_some.mp hj
    · cases heq
      exact hstands
    · refine (h.stands j g q hj).other (Ne.symm hji) hclear fun record hq => hnew j record ?_
      rw [hj]
      exact hq
  known j hj e' he' := by
    have hji : j ≠ i := fun heq => by
      rw [heq, Function.update_self] at hj
      cases hj
    rw [Function.update_of_ne hji] at hj
    obtain he' | rfl := mem_concat he'
    · exact h.known j hj e' he'
    · exact hji.symm
  began j g hg := by
    obtain hg | hg := mem_concat hg
    · obtain ⟨q, hq⟩ := h.began j g hg
      by_cases hji : j = i
      · subst hji
        cases hi.symm.trans hq
        exact ⟨p', Function.update_self ..⟩
      · exact ⟨q, (Function.update_of_ne hji _ m).trans hq⟩
    · cases hg

/-- What is seen after a flow moved. -/
theorem seen_moved {record : UserRecord}
    (h : ((Function.update m i (some (f, p')) j).bind fun q => q.2.seen) = some record) :
    p'.seen = some record ∧ j = i ∨ ((m j).bind fun q => q.2.seen) = some record := by
  rw [Function.update_apply] at h
  split at h
  case isTrue hji => exact Or.inl ⟨h, hji⟩
  case isFalse => exact Or.inr h

/-- A call that writes nobody. -/
theorem Inv.writeless (h : Inv ctx w₀ w log m) (hi : m i = some (f, p)) (hexec : exec c w = (r, w'))
    (hclear : Clear ctx w₀ log (.called i c r)) (husers : w'.users = w.users)
    (hnone : ∀ id, written id (.called i c r : MoveEntry ctx) = none)
    (hseen : ∀ record, p'.seen = some record →
      p.seen = some record ∨ ∃ id, get w.users id = some record)
    (howing : ∀ hash t, get w'.tokens hash = some t → t.kind = .changeEmail → t.spentAt = none →
      ∀ new, p = .owing new → new.id = t.userId → p' = p)
    (hfresh : ∀ record, c = .insertToken record → record.kind = .changeEmail →
      ∃ secret address, Stored ctx (log ++ [.called i c r]) record secret address)
    (hstands : Stands ctx w₀ (log ++ [.called i c r]) i p') :
    Inv ctx w₀ w' (log ++ [.called i c r]) (Function.update m i (some (f, p'))) := by
  refine h.called hi hclear ?_ (h.links_step hi hexec ?_ howing hfresh) ?_ hstands
  · refine h.histories.concat husers hnone fun j record hj => ?_
    obtain ⟨hp, rfl⟩ | hj := seen_moved hj
    · exact (hseen record hp).imp_left fun hp => by rw [hi]; exact hp
    · exact Or.inl hj
  · rintro id address ⟨hw, -⟩
    rw [hnone id] at hw
    cases hw
  · intro j record _ new hw
    rw [hnone record.id] at hw
    cases hw

/-- A user written. -/
theorem Inv.write (h : Inv ctx w₀ w log m) {record new : UserRecord} {patch : UserPatch}
    (hi : m i = some (f, p)) (hp : p.seen = some record) (hseen : p'.seen = none)
    (hexec : exec (.updateUser record.id patch record.version) w = (.ok new, w'))
    (hclear : Clear ctx w₀ log (.called i (.updateUser record.id patch record.version) (.ok new)))
    (hreturn : recordAfter w₀ record.id log = some record → new = applyPatch record patch →
      ∀ address, Returns ctx w₀ record.id address log
        (.called i (.updateUser record.id patch record.version) (.ok new)) →
      f.isUpdate = true → p' = .owing new)
    (hstands : recordAfter w₀ record.id log = some record → Stands ctx w₀
      (log ++ [.called i (.updateUser record.id patch record.version) (.ok new)]) i p') :
    Inv ctx w₀ w' (log ++ [.called i (.updateUser record.id patch record.version) (.ok new)])
      (Function.update m i (some (f, p'))) := by
  obtain ⟨hafter, hnew, hnext⟩ := h.histories.write (by rw [hi]; exact hp) hexec
  refine h.called hi hclear (hnext _ fun j record' hj => ?_)
    (h.links_step hi hexec ?_ ?_ (by nofun)) ?_ (hstands hafter)
  · obtain ⟨hp', -⟩ | hj := seen_moved hj
    · rw [hseen] at hp'
      cases hp'
    · exact hj
  · intro id address hreturns hf
    obtain rfl : record.id = id := by
      by_contra hne
      have hw := hreturns.1
      rw [written, if_neg hne] at hw
      cases hw
    exact ⟨new, hreturn hafter hnew address hreturns hf, by rw [hnew]; rfl⟩
  · rintro hash t - - - new' rfl
    cases hp
  · intro j record' hj new' hw
    rw [written] at hw
    split at hw
    case isTrue heq =>
      cases hw
      rw [heq] at hexec
      exact h.histories.newer hj hexec
    case isFalse => cases hw

/-- **A link is taken unspent only where nobody came back to its address.** -/
theorem Inv.stays (h : Inv ctx w₀ w log m) {token stored : TokenRecord} {secret address : Str}
    (hlog : log = b ++ l₂) (hstored : Stored ctx b stored secret address)
    (halike : Alike token stored)
    (hawaited : Awaited ctx w₀ m token.userId address b l₂) (hclear : Clear ctx w₀ log e)
    (htakes : Takes i token e) : Stays ctx w₀ token.userId address b l₂ := by
  rintro l e' l' rfl hreturns
  obtain ⟨before, j, _, _, rfl, -⟩ := hstored.asked
  rw [← List.append_assoc] at hlog
  obtain ⟨⟨f, hbegan, hupdate⟩, hpaid⟩ := hclear.take i token secret address htakes
    (halike.binds hstored.binds) _ e' l' hlog ⟨j, stored, by simp, halike.1.symm⟩ hreturns
  obtain ⟨f', p, hp, howes⟩ := hawaited l e' l' rfl hreturns
  obtain ⟨q, hq⟩ := h.began _ f hbegan
  cases hp.symm.trans hq
  obtain ⟨new, rfl, -⟩ := howes hupdate
  obtain ⟨hspends, hends⟩ := h.stands _ f _ hp
  have hsub : ∀ e'' ∈ l', e'' ∈ log := fun e'' he'' =>
    hlog ▸ List.mem_append_right _ (List.mem_cons_of_mem _ he'')
  exact hpaid ⟨fun e'' he'' => hspends e'' (hsub e'' he'') _, fun r hr => hends r (hsub _ hr)⟩

/-- A link is found under the hash of its secret, and taken where nobody came back to its address.
-/
theorem Inv.taken (h : Inv ctx w₀ w log m) {secret : Str} {at_ : Time} {token : TokenRecord}
    (hexec : exec (.consumeToken (hashSecret ctx secret) .changeEmail at_) w = (some token, w'))
    (hunspent : token.spentAt = none)
    (hclear : Clear ctx w₀ log
      (.called i (.consumeToken (hashSecret ctx secret) .changeEmail at_) (some token))) :
    Taken ctx w₀
      (log ++ [.called i (.consumeToken (hashSecret ctx secret) .changeEmail at_) (some token)])
      i secret token 0 := by
  have hfind : findToken w.tokens (hashSecret ctx secret) .changeEmail = some token :=
    congrArg Prod.fst hexec
  obtain ⟨hget, hkind⟩ := Option.filter_eq_some_iff.mp hfind
  obtain ⟨hhash, stored, secret', address, b, l₂, hlog, hstored, halike, hawaited⟩ :=
    h.links _ token hget (of_decide_eq_true hkind)
  obtain rfl : secret' = secret := ctx.runtime.sha256_injective
    (hstored.binds.hash.symm.trans (halike.1.symm.trans hhash))
  have htakes : Takes i token (.called i (.consumeToken (hashSecret ctx secret') .changeEmail at_)
      (some token) : MoveEntry ctx) := ⟨hunspent, _, _, rfl⟩
  have hstays := h.stays hlog hstored halike (halike.2.2.1 ▸ hawaited hunspent) hclear htakes
  have hsame : ¬ Returns ctx w₀ token.userId address (b ++ l₂)
      (.called i (.consumeToken (hashSecret ctx secret') .changeEmail at_) (some token)) := by
    rintro ⟨⟨⟩, -⟩
  exact ⟨⟨stored, address, b, _, by rw [hlog, List.append_assoc], hstored, halike,
    hstays.concat hsame⟩, log, _, [], rfl, htakes, rfl, fun _ => List.not_mem_nil⟩

/-- The record read for the write is at the address of the link, and the user was all along. -/
theorem Inv.checked (h : Inv ctx w₀ w log m) {secret : Str} {token : TokenRecord}
    {user record : UserRecord} (htaken : Taken ctx w₀ log i secret token 1)
    (huser : user.id = token.userId) (hread : get w.users user.id = some record)
    (hbound : token.codeHash = some (boundTo ctx secret (addressOf ctx record))) :
    record.id = token.userId ∧ Checked ctx w₀ log secret record := by
  obtain ⟨⟨stored, address, b, l₂, hlog, hstored, halike, hstays⟩, -⟩ := htaken
  have hid : record.id = user.id := h.histories.keyed _ _ hread
  rw [← hid] at huser hread
  refine ⟨huser, stored, address, b, l₂, hlog, hstored,
    halike.2.2.1.symm.trans huser.symm, fun _ => ?_⟩
  obtain rfl : addressOf ctx record = address := boundTo_injective ctx secret
    (Option.some.inj (hbound.symm.trans (halike.2.2.2.trans hstored.binds.bound)))
  rw [huser] at hread ⊢
  refine hstays.held ?_
  rw [← hlog, addressAfter, ← h.histories.current, hread, Option.map_some]

theorem Inv.step (h : Inv ctx w₀ w log m) (hi : m i = some (f, p))
    (hends : ∀ r', .ended i r' ∉ log) (hexec : exec c w = (r, w'))
    (hclear : Clear ctx w₀ log (.called i c r)) (hstep : Step ctx f p c r p') :
    Inv ctx w₀ w' (log ++ [.called i c r]) (Function.update m i (some (f, p'))) := by
  have hstands := h.stands i f p hi
  cases hstep with
  | aside haside =>
    refine h.writeless hi hexec hclear (exec_users hexec haside.writeless) (haside.unwritten i)
      (fun _ => Or.inl) (fun _ _ _ _ _ _ _ _ => rfl) ?_ (hstands.aside haside)
    rintro record rfl hkind
    exact absurd hkind haside
  | leave hfree =>
    exact h.writeless hi hexec hclear (exec_users hexec trivial) (fun _ => rfl) (by rintro _ ⟨⟩)
      (fun _ _ _ _ _ new hp _ => absurd hp (hfree new)) (by simp) trivial
  | refused hfree =>
    obtain rfl : w' = w := by
      have hsame := (exec_updateUser_error (congrArg Prod.fst hexec)).1
      rwa [hexec] at hsame
    exact h.writeless hi hexec hclear rfl (fun _ => rfl) (by rintro _ ⟨⟩)
      (fun _ _ _ _ _ new hp _ => absurd hp (hfree new)) (by simp) trivial
  | @read id record =>
    refine h.writeless hi hexec hclear (exec_users hexec trivial) (fun _ => rfl) ?_
      (by simp) (by simp)
      ⟨unspending_concat hstands ?_, id, List.mem_append_right _ List.mem_cons_self⟩
    · rintro _ ⟨⟩
      exact Or.inr ⟨id, congrArg Prod.fst hexec⟩
    · rintro _ ⟨_, _, ⟨⟩⟩
  | @issue record token secret binds huser =>
    refine h.writeless hi hexec hclear (exec_users hexec trivial) (fun _ => rfl)
      (by rintro _ ⟨⟩) (by simp)
      ?_ trivial
    rintro _ ⟨⟩ -
    obtain ⟨-, id, hread⟩ := hstands
    exact ⟨secret, addressOf ctx record, binds, log, i, id, record, rfl, hread, huser.symm, rfl⟩
  | retire =>
    exact h.writeless hi hexec hclear (exec_users hexec trivial) (fun _ => rfl)
      (by rintro _ ⟨⟩) (by simp)
      (by simp) trivial
  | @kept type record patch new htype hrecord hsame =>
    refine h.write hi rfl rfl hexec hclear (fun hafter hnew address hreturns => ?_) fun _ => trivial
    have hmoved : addressOf ctx new = addressOf ctx record := by
      rw [addressOf_eq htype hrecord, ← hsame]
      exact addressOf_eq htype (by rw [hnew]; exact hrecord)
    obtain ⟨hw, hleft⟩ := hreturns
    rw [written, if_pos rfl, Option.map_some, hmoved] at hw
    rw [addressAfter, hafter, Option.map_some] at hleft
    exact absurd hw hleft
  | moved hf =>
    refine h.write hi rfl rfl hexec hclear (fun _ _ _ _ _ => rfl) fun _ =>
      ⟨unspending_concat hstands.1 ?_, fun r' => notMem_concat (hends r') (by rintro ⟨⟩)⟩
    rintro _ ⟨_, _, ⟨⟩⟩
  | settle =>
    refine h.writeless hi hexec hclear (exec_users hexec trivial) (fun _ => rfl)
      (by rintro _ ⟨⟩) ?_ (by simp)
      trivial
    rintro hash t ht hkind hunspent _ ⟨⟩ huser
    obtain rfl := congrArg Prod.snd hexec
    exact absurd huser.symm (ne_of_spendUserTokens ht hkind hunspent)
  | take hunspent =>
    exact h.writeless hi hexec hclear (exec_users hexec trivial) (fun _ => rfl)
      (by rintro _ ⟨⟩) (by simp)
      (by simp) fun _ => h.taken hexec hunspent hclear
  | vain =>
    exact h.writeless hi hexec hclear (exec_users hexec trivial) (fun _ => rfl)
      (by rintro _ ⟨⟩) (by simp)
      (by simp) trivial
  | @find secret token user =>
    have htaken : Taken ctx w₀ (log ++ [.called i (.findUser token.userId) (some user)])
      i secret token
        (0 + 1) := by
      refine (hstands hends).concat ?_ (by rintro _ ⟨⟩) ?_
      · have hread : isRead i (.called i (.findUser token.userId) (some user) : MoveEntry ctx) =
          true :=
          decide_eq_true rfl
        rw [List.countP_singleton, if_pos hread]
      · rintro address - ⟨⟨⟩, -⟩
    exact h.writeless hi hexec hclear (exec_users hexec trivial) (fun _ => rfl)
      (by rintro _ ⟨⟩) (by simp)
      (by simp) ⟨fun _ => htaken, h.histories.keyed _ _ (congrArg Prod.fst hexec)⟩
  | @check secret token user record hbound =>
    have hread : get w.users user.id = some record := congrArg Prod.fst hexec
    obtain ⟨huser, hchecked⟩ := h.checked (hstands.1 hends) hstands.2 hread hbound
    refine h.writeless hi hexec hclear (exec_users hexec trivial) (fun _ => rfl) ?_
      (by simp) (by simp)
      ⟨huser, hchecked.concat (by rintro _ ⟨⟩)⟩
    rintro _ ⟨⟩
    exact Or.inr ⟨user.id, hread⟩
  | @confirm secret token record patch new hf =>
    refine h.write hi rfl rfl hexec hclear (fun _ _ _ _ htrue => ?_) fun hafter => ?_
    · rw [hf] at htrue
      cases htrue
    · obtain ⟨-, stored, address, b, l₂, rfl, hstored, huser, hheld⟩ := hstands
      exact ⟨stored, address, b, l₂, patch, record.version, new, [], by rw [huser], hstored,
        huser ▸ hheld hafter⟩

/-- An entry that moves nobody, and takes no phase from anybody. -/
theorem Awaited.mono {m' : ℕ → Option (MoveFlow ctx × Phase)} {id address : Str}
    (h : Awaited ctx w₀ m id address b l₂) (he : written id e = none)
    (hm : ∀ k q, m k = some q → m' k = some q) : Awaited ctx w₀ m' id address b (l₂ ++ [e]) := by
  intro l e' l' hl hreturns
  obtain ⟨rfl, rfl⟩ | ⟨l₃, -, hold⟩ := concat_eq_append_cons hl
  · rw [Returns, he] at hreturns
    cases hreturns.1
  · obtain ⟨g, q, hg, howes⟩ := h l e' l₃ hold hreturns
    exact ⟨g, q, hm _ _ hg, howes⟩

theorem Inv.links_marked (h : Inv ctx w₀ w log m) {m' : ℕ → Option (MoveFlow ctx × Phase)}
    (he : ∀ id, written id e = none) (hm : ∀ k q, m k = some q → m' k = some q) :
    ∀ hash t, get w.tokens hash = some t → t.kind = .changeEmail → t.tokenHash = hash ∧
      ∃ token secret address b l₂, log ++ [e] = b ++ l₂ ∧ Stored ctx b token secret address ∧
        Alike t token ∧ (t.spentAt = none → Awaited ctx w₀ m' token.userId address b l₂) := by
  intro hash t ht hkind
  obtain ⟨hhash, token, secret, address, b, l₂, rfl, hstored, halike, hawaited⟩ :=
    h.links hash t ht hkind
  exact ⟨hhash, token, secret, address, b, l₂ ++ [e], List.append_assoc .., hstored, halike,
    fun hunspent => (hawaited hunspent).mono (he _) hm⟩

theorem Inv.begin (h : Inv ctx w₀ w log m) (hi : m i = none)
    (hclear : Clear ctx w₀ log (.began i f)) :
    Inv ctx w₀ w (log ++ [.began i f]) (Function.update m i (some (f, .idle))) where
  histories := h.histories.concat rfl (fun _ => rfl) fun j record hj => Or.inl <| by
    obtain ⟨hp, -⟩ | hj := seen_moved hj
    · cases hp
    · exact hj
  links := h.links_marked (fun _ => rfl) fun k q hk => by
    refine (Function.update_of_ne (fun hki => ?_) _ m).trans hk
    subst hki
    cases hi.symm.trans hk
  stands j g q hj := by
    obtain ⟨rfl, heq⟩ | ⟨hji, hj⟩ := update_eq_some.mp hj
    · cases heq
      exact unspending_concat (fun e he _ hs => h.known j hi e he (spends_thread hs))
        (by rintro _ ⟨_, _, ⟨⟩⟩)
    · exact (h.stands j g q hj).other (Ne.symm hji) hclear (by rintro _ _ _ ⟨⟩)
  known j hj e' he' := by
    have hji : j ≠ i := fun heq => by
      rw [heq, Function.update_self] at hj
      cases hj
    rw [Function.update_of_ne hji] at hj
    obtain he' | rfl := mem_concat he'
    · exact h.known j hj e' he'
    · exact hji.symm
  began j g hg := by
    obtain hg | hg := mem_concat hg
    · obtain ⟨q, hq⟩ := h.began j g hg
      have hji : j ≠ i := fun heq => by
        rw [heq, hi] at hq
        cases hq
      exact ⟨q, (Function.update_of_ne hji _ m).trans hq⟩
    · cases hg
      exact ⟨.idle, Function.update_self ..⟩

/-- A flow that owes nothing ends where it stands. -/
theorem Stands.ends (h : Stands ctx w₀ log i p) {a : Except Failure MoveAnswer}
    (hfinal : Final f a p) :
    Stands ctx w₀ (log ++ [.ended i a]) i p := by
  have hended : ¬ ∀ r, .ended i r ∉ log ++ [.ended i a] := fun hnot =>
    hnot a (List.mem_append_right _ List.mem_cons_self)
  have hspends : ∀ userId, ¬ Spends i userId (.ended i a : MoveEntry ctx) := by rintro _ ⟨_, _, ⟨⟩⟩
  cases p with
  | idle => exact unspending_concat h hspends
  | read record => exact ⟨unspending_concat h.1 hspends, h.2.imp fun _ => List.mem_append_left _⟩
  | owing new => exact absurd rfl (hfinal.1 new)
  | took secret token => exact fun hnot => absurd hnot hended
  | found secret token user => exact ⟨fun hnot => absurd hnot hended, h.2⟩
  | checked secret token record => exact ⟨h.1, h.2.concat (by rintro _ ⟨⟩)⟩
  | wrote secret => exact Kept.concat h
  | _ => trivial

theorem Inv.finish (h : Inv ctx w₀ w log m) (hi : m i = some (f, p)) {a : Except Failure MoveAnswer}
    (hfinal : Final f a p) (hclear : Clear ctx w₀ log (.ended i a)) :
    Inv ctx w₀ w (log ++ [.ended i a]) m where
  histories := h.histories.concat rfl (fun _ => rfl) fun _ _ => Or.inl
  links := h.links_marked (fun _ => rfl) fun _ _ => id
  stands j g q hj := by
    by_cases hji : j = i
    · subst hji
      cases hi.symm.trans hj
      exact (h.stands j f p hi).ends hfinal
    · exact (h.stands j g q hj).other (Ne.symm hji) hclear (by rintro _ _ _ ⟨⟩)
  known j hj e' he' := by
    obtain he' | rfl := mem_concat he'
    · exact h.known j hj e' he'
    · rintro rfl
      cases hi.symm.trans hj
  began j g hg := by
    obtain hg | hg := mem_concat hg
    · exact h.began j g hg
    · cases hg

/-- A store of users under their own ids, with no link pending. -/
structure Unlinked (w : World) : Prop where
  keyed : ∀ id record, get w.users id = some record → record.id = id
  unlinked : ∀ hash t, get w.tokens hash = some t → t.kind ≠ .changeEmail

theorem Inv.start (h : Unlinked w) : Inv ctx w w [] fun _ => none where
  histories := Histories.start h.keyed
  links hash t ht hkind := absurd hkind (h.unlinked hash t ht)
  stands _ _ _ h := nomatch h
  known _ _ _ h := nomatch h
  began _ _ h := nomatch h

theorem keeps (ctx : Context) (w₀ : World) : (protocol ctx).Keeps (fun _ => True)
    fun w log m => Tells (Clear ctx w₀) log → Inv ctx w₀ w log m where
  drift {_ _ _ e} h _ hclear := by
    cases e <;> exact { h hclear with histories := { (h hclear).histories with } }
  began h hi _ hclear := (h hclear.of_concat.1).begin hi hclear.of_concat.2
  called h hi hends hexec hstep hclear :=
    (h hclear.of_concat.1).step hi hends hexec hclear.of_concat.2 hstep
  ended h hi hfinal _ hclear := (h hclear.of_concat.1).finish hi hfinal hclear.of_concat.2

end Inv

end Moving

open Moving in
/-- **A link dies with the address it was asked from**, in every run whose entries keep clear of the
gap: a confirmation that succeeds moves a user who was at that address from when the link was stored
to that very write. -/
theorem link_dies {ctx : Context} {w : World} (hw : Unlinked w)
    {moves : List (Move Drift (MoveFlow ctx))}
    (hclear : Tells (Clear ctx w) ((moveService ctx).run w moves).log) {i : ℕ}
    {asked : Option (Configured ctx)} {secret where_ : Str} {a : MoveAnswer}
    (hconfirmed : ((moveService ctx).run w moves).threads[i]? =
      some (.confirm asked secret where_, .done (.ok a))) :
    ∃ token address b l₂ patch v new l₃,
      ((moveService ctx).run w moves).log =
        b ++ l₂ ++ .called i (.updateUser token.userId patch v) (.ok new) :: l₃ ∧
      Stored ctx b token secret address ∧
      ∀ l, l <+: l₂ → addressAfter ctx w token.userId (b ++ l) = some address := by
  obtain ⟨m, hmatches, hinv⟩ := (keeps ctx w).run (fun _ => Inv.start hw) fun _
    (_ : _ ∈ moves) => trivial
  obtain ⟨⟨p, hp, -, hwrote⟩, -⟩ := hmatches.done hconfirmed
  obtain rfl : p = .wrote secret := hwrote
  exact (hinv hclear).stands i _ _ hp

/-! ## A link asked for and confirmed -/

/-- The one entry of a list of some kind stands where it was put. -/
theorem append_cons_unique {τ : Type} {q : τ → Bool} {l₁ l₂ p s : List τ} {x y : τ}
    (h : l₁ ++ x :: l₂ = p ++ y :: s) (hx : q x = true) (hp : p.all fun z => !q z)
    (hs : s.all fun z => !q z) : l₁ = p ∧ x = y ∧ l₂ = s := by
  obtain ⟨a, rfl, ha⟩ | ⟨a, rfl, ha⟩ := List.append_eq_append_iff.mp h
  · cases a with
    | nil => simpa using ha
    | cons z a =>
      obtain ⟨rfl, -⟩ := List.cons.inj ha
      simp [hx] at hp
  · cases a with
    | nil => simpa [eq_comm] using ha
    | cons z a =>
      obtain ⟨rfl, rfl⟩ := List.cons.inj ha
      simp [hx] at hs

section Runs

def isWrite : MoveEntry clinic → Bool
  | .called _ (.updateUser ..) (.ok _) => true
  | _ => false

def isTake : MoveEntry clinic → Bool
  | .called _ (.consumeToken ..) _ => true
  | _ => false

/-- Ada's type. -/
def patients : Configured clinic := ⟨patient, rfl⟩

def askChange : MoveFlow clinic := .send patients (.id ada.id) (js "ada@new.test")
    (js "patient." ++ ·)

def confirmed : MoveFlow clinic :=
  .confirm (some patients) (js "secret:0") (js "patient.changeEmail.confirm")

/-- Ada asks for a link, and confirms it. -/
def askedThenConfirmed : List (Move Drift (MoveFlow clinic)) :=
  [.begin askChange] ++ List.replicate 6 (.step 0) ++ [.begin confirmed] ++
  List.replicate 6 (.step 1)

/-- The link's token. -/
def changeLink : TokenRecord where
  tokenHash := js "secret:0"
  kind := .changeEmail
  userId := ada.id
  address := js "ada@new.test"
  codeHash := some (boundTo clinic (js "secret:0") (js "ada@clinic.test"))
  attempts := 0
  expiresAt := 600000
  spentAt := none
  createdAt := 0

/-- Its log. -/
def askedLog : MoveLog clinic := ((moveService clinic).run quietClinic askedThenConfirmed).log

open Moving

/-- No write comes before the taking, and the one there is comes after both reads. -/
theorem clear_asked : Tells (Clear clinic quietClinic) askedLog := by
  obtain ⟨x, hwrite⟩ : ∃ x, askedLog = askedLog.take 14 ++ x :: askedLog.drop 15 := ⟨_, rfl⟩
  obtain ⟨y, htake⟩ : ∃ y, askedLog = askedLog.take 10 ++ y :: askedLog.drop 11 := ⟨_, rfl⟩
  obtain ⟨z, hthread, hbefore⟩ : ∃ z : MoveEntry clinic, z.thread = 1 ∧
      askedLog.take 14 = askedLog.take 10 ++ z :: (askedLog.take 14).drop 11 := ⟨_, rfl, rfl⟩
  have hlast : (askedLog.drop 15).all fun e => !isWrite e := by decide +kernel
  have hfirst : (askedLog.take 14).all fun e => !isWrite e := by decide +kernel
  have hnone : (askedLog.take 10).all fun e => !isTake e := by decide +kernel
  have hrest : (askedLog.drop 11).all fun e => !isTake e := by decide +kernel
  have hbetween : ((askedLog.take 14).drop 11).all fun e => !isTake e := by decide +kernel
  have hreads : ((askedLog.take 14).drop 11).countP (isRead 1) = 2 := by decide +kernel
  have hwrites : ∀ {id address : Str} {e : MoveEntry clinic},
      (written id e).map (addressOf clinic) = some address → isWrite e = true := by
    intro id address e h
    obtain ⟨new, hnew, -⟩ := Option.map_eq_some_iff.mp h
    obtain ⟨i, patch, v, rfl⟩ := written_eq_some hnew
    rfl
  intro l₁ e l₂ hlog
  refine ⟨?_, ?_⟩
  · rintro i token secret address ⟨-, hash, at_, rfl⟩ - l₃ e' l₄ hl₁ - ⟨hw, -⟩
    obtain ⟨rfl, -⟩ := append_cons_unique (hlog.symm.trans htake) rfl hnone hrest
    have hmem : e' ∈ askedLog.take 14 := by
      rw [hbefore, hl₁, List.append_assoc]
      exact List.mem_append_right _ List.mem_cons_self
    have hnot := List.all_eq_true.mp hfirst e' hmem
    rw [hwrites hw] at hnot
    cases hnot
  · rintro i token secret address l₃ e' l₄ hl₁ ⟨-, hash, at_, rfl⟩ - ⟨hw, -⟩ ⟨hreading, -⟩
    obtain ⟨rfl, -⟩ := append_cons_unique (hlog.symm.trans hwrite) (hwrites hw) hfirst hlast
    obtain ⟨-, rfl, rfl⟩ := append_cons_unique (hl₁.symm.trans hbefore) rfl hnone hbetween
    obtain rfl : i = 1 := hthread
    rw [hreads] at hreading
    exact Nat.lt_irrefl _ hreading

/-- Her link moves her from the address it was asked from. -/
theorem link_dies_asked :
    ∃ token address b l₂ patch v new l₃,
      askedLog = b ++ l₂ ++ .called 1 (.updateUser token.userId patch v) (.ok new) :: l₃ ∧
      Stored clinic b token (js "secret:0") address ∧
      ∀ l, l <+: l₂ → addressAfter clinic quietClinic token.userId (b ++ l) = some address := by
  have hclinic : Unlinked quietClinic := by
    refine ⟨fun id record h => ?_, by nofun⟩
    obtain ⟨rfl, rfl⟩ := Prod.mk.inj (List.mem_singleton.mp (mem_of_get h))
    rfl
  obtain ⟨user, hconfirmed⟩ : ∃ user,
      ((moveService clinic).run quietClinic askedThenConfirmed).threads[1]? =
      some (confirmed, .done (.ok (.user user))) := ⟨_, rfl⟩
  exact link_dies hclinic clear_asked hconfirmed

end Runs

/-! ## A link revived -/

def movedTo (email : Str) : MoveFlow clinic :=
  .update patients (.id ada.id) [(js "email", .str email)] none (js "patient." ++ ·)

/-- Ada asks for a link, moves away and comes back, neither move having spent the links yet; and the
link is confirmed. -/
def awayAndBack : List (Move Drift (MoveFlow clinic)) :=
  [.begin askChange] ++ List.replicate 6 (.step 0) ++
    [.begin (movedTo (js "ada@other.test")), .step 1, .step 1, .step 1,
      .begin (movedTo (js "ada@clinic.test")), .step 2, .step 2, .step 2, .begin confirmed] ++
    List.replicate 6 (.step 3)

def awayLog : MoveLog clinic := ((moveService clinic).run quietClinic awayAndBack).log

open Moving in
/-- The confirmation moves her, and she had left between the storing of the link and its write. -/
theorem link_revived :
    let s := (moveService clinic).run quietClinic awayAndBack
    (∃ user, s.threads[3]? = some (confirmed, .done (.ok (.user user)))) ∧
    ∃ token address b l₂ l patch v new l₃,
      s.log = b ++ l₂ ++ .called 3 (.updateUser token.userId patch v) (.ok new) :: l₃ ∧
      Stored clinic b token (js "secret:0") address ∧ l <+: l₂ ∧
      addressAfter clinic quietClinic token.userId (b ++ l) = some (js "ada@other.test") ∧
      address = js "ada@clinic.test" := by
  obtain ⟨patch, v, new, hlog⟩ : ∃ patch v new, awayLog =
    awayLog.take 5 ++ (awayLog.drop 5).take 17 ++
      .called 3 (.updateUser changeLink.userId patch v) (.ok new) :: awayLog.drop 23 :=
      ⟨_, _, _, rfl⟩
  exact ⟨⟨_, rfl⟩, changeLink, js "ada@clinic.test", awayLog.take 5, (awayLog.drop 5).take 17,
    (awayLog.drop 5).take 7, patch, v, new, awayLog.drop 23, hlog,
    ⟨⟨rfl, rfl, rfl⟩, awayLog.take 4, 0,
      ada.id, ada, rfl, List.mem_of_getElem? (i := 1) rfl, rfl, rfl⟩,
    List.take_prefix_take_left (by decide), rfl, rfl⟩

end Janus.Auth
