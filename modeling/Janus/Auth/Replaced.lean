import Janus.Auth.Replacing
import Mathlib.Algebra.BigOperators.Group.Finset.Basic
import Mathlib.Algebra.Order.Group.Multiset

/-!
# Auth/Replaced — the chain of a user's records, and the events that tell it

Every write of a run replaces the record the write before it left (`Told.write`), and what it
replaced is owed to the listener until its flow tells it (`Owing`): so once all flows ended, the
events told are those the chain is due (`writes_told`), in whatever order.  The order is not the
chain's: an avatar set again may be told replaced by an event still under way (`told_late`).
-/

namespace Janus.Auth

open Js Insertion Calls

/-- The log of a run of these flows. -/
abbrev WriterLog (ctx : Context) := List (WriterEntry ctx)

/-- The avatar an event says was let go. -/
def UserEventType.formerAvatarId : UserEventType → Option Str
  | .avatarChanged former | .avatarRemoved former => former
  | _ => none

/-- Whether it says this one was. -/
def UserEventType.lets (a : Str) (event : UserEventType) : Bool := event.formerAvatarId = some a

namespace Replacing

/-! ## The chain -/

section Chain

variable {ctx : Context} {w₀ : World} {id : Str}

/-- The event of an entry that tells of something the user replaced. -/
def toldOf (id : Str) : WriterEntry ctx → Option UserEvent
  | .called _ (.emit event userId userType at_) _ =>
    if event.replaces ∧ userId = id then some ⟨event, userId, userType, at_⟩ else none
  | _ => none

/-- The events told about the user. -/
def told (id : Str) (log : WriterLog ctx) : List UserEvent := log.filterMap (toldOf id)

/-- The writes of a stretch of the log, each with the record it replaced. -/
def replacements (id : Str) : Option UserRecord → WriterLog ctx →
    List (Option UserRecord × UserRecord)
  | _, [] => []
  | former, e :: log =>
    match written id e with
    | some new => (former, new) :: replacements id (some new) log
    | none => replacements id former log

/-- The user's record after a stretch of the log. -/
def recordFrom (id : Str) (former : Option UserRecord) (log : WriterLog ctx) : Option UserRecord :=
  log.foldl (fun record e => (written id e).or record) former

theorem replacements_append (former : Option UserRecord) (l₁ l₂ : WriterLog ctx) :
    replacements id former (l₁ ++ l₂) =
      replacements id former l₁ ++ replacements id (recordFrom id former l₁) l₂ := by
  induction l₁ generalizing former with
  | nil => rfl
  | cons e l₁ ih =>
    rw [List.cons_append, replacements, replacements, recordFrom, List.foldl_cons]
    cases h : written id e with
    | none =>
      rw [Option.none_or]
      exact ih former
    | some new =>
      rw [Option.some_or, List.cons_append]
      exact congrArg _ (ih (some new))

/-- The events a write is due. -/
def dueOf (ctx : Context) : Option UserRecord × UserRecord → List UserEvent
  | (some former, new) => announced ctx (changes ctx former new) new
  | (none, _) => []

/-- The events a stretch of the log is due. -/
def due (ctx : Context) (id : Str) (former : Option UserRecord) (log : WriterLog ctx) :
    List UserEvent :=
  (replacements id former log).flatMap (dueOf ctx)

theorem due_append (former : Option UserRecord) (l₁ l₂ : WriterLog ctx) :
    due ctx id former (l₁ ++ l₂) = due ctx id former l₁ ++
    due ctx id (recordFrom id former l₁) l₂ := by
  rw [due, replacements_append, List.flatMap_append, due, due]

theorem due_of_writeless {former : Option UserRecord} {e : WriterEntry ctx}
    (h : written id e = none) :
    due ctx id former [e] = [] := by
  rw [due, replacements, h]
  rfl

theorem due_of_written {former new : UserRecord} {e : WriterEntry ctx}
    (h : written id e = some new) :
    due ctx id (some former) [e] = announced ctx (changes ctx former new) new := by
  rw [due, replacements, h]
  exact List.append_nil _

end Chain

/-! ## How often an avatar was let go -/

section Avatars

variable {ctx : Context} {id a : Str}

/-- Whether the record points at the image. -/
def shows (a : Str) (record : Option UserRecord) : Bool := record.bind UserRecord.avatarId = some a

/-- A write that points the user at the image anew. -/
def setsAvatar (a : Str) : Option UserRecord × UserRecord → Bool
  | (former, new) => shows a (some new) && !shows a former

/-- How often a stretch of the log set the avatar. -/
def timesSet (a id : Str) (former : Option UserRecord) (log : WriterLog ctx) : ℕ :=
  (replacements id former log).countP (setsAvatar a)

/-- How often the events say it was let go. -/
def timesTold (a : Str) (events : List UserEvent) : ℕ :=
  events.countP (·.type.lets a)

/-- A write tells an avatar let go when it was there and is there no more. -/
theorem countP_changes (former new : UserRecord) :
    (changes ctx former new).countP (UserEventType.lets a) =
      if former.avatarId = some a ∧ new.avatarId ≠ some a then 1 else 0 := by
  have hemail : (emailChanges ctx former new).countP (UserEventType.lets a) = 0 := by
    unfold emailChanges
    split
    · split <;> rfl
    · rfl
  rw [changes, List.countP_append, hemail, Nat.zero_add, avatarChanges]
  by_cases hsame : new.avatarId = former.avatarId
  · rw [if_pos hsame, hsame, if_neg fun h => h.2 h.1]
    rfl
  · rw [if_neg hsame]
    have hone : ∀ event : UserEventType, event.formerAvatarId = former.avatarId →
        [event].countP (UserEventType.lets a) = if former.avatarId = some a ∧
        new.avatarId ≠ some a then 1 else 0 := by
      intro event hevent
      rw [List.countP_singleton, UserEventType.lets, hevent]
      by_cases h : former.avatarId = some a
      · have hnew : new.avatarId ≠ some a := fun hnew => hsame (hnew.trans h.symm)
        simp [h, hnew]
      · simp [h]
    split
    · exact hone _ rfl
    · exact hone _ rfl

/-- One write: an avatar set is there, and one let go was. -/
theorem timesTold_dueOf (hevents : ctx.events = true) (former : Option UserRecord)
    (new : UserRecord) :
    timesTold a (dueOf ctx (former, new)) + (shows a (some new)).toNat =
      (setsAvatar a (former, new)).toNat + (shows a former).toNat := by
  cases former with
  | none => simp [dueOf, timesTold, setsAvatar, shows]
  | some former =>
    have hcount : timesTold a (dueOf ctx (some former, new)) =
        if former.avatarId = some a ∧ new.avatarId ≠ some a then 1 else 0 := by
      rw [dueOf, announced, if_pos hevents, timesTold, List.countP_map]
      exact countP_changes former new
    rw [hcount]
    by_cases hformer : former.avatarId = some a <;> by_cases hnew : new.avatarId = some a <;>
      simp [setsAvatar, shows, hformer, hnew]

/-- **The avatar is told let go as often as it was set**, but for its last stay. -/
theorem timesTold_due (hevents : ctx.events = true) (former : Option UserRecord)
    (log : WriterLog ctx) :
    timesTold a (due ctx id former log) + (shows a (recordFrom id former log)).toNat =
      timesSet a id former log + (shows a former).toNat := by
  induction log generalizing former with
  | nil => simp [due, replacements, timesTold, timesSet, recordFrom]
  | cons e log ih =>
    have hrecord : recordFrom id former (e :: log) = recordFrom id ((written id e).or former) log :=
      rfl
    rw [hrecord, due, timesSet, replacements]
    cases h : written id e with
    | none => exact ih former
    | some new =>
      have hone := @timesTold_dueOf ctx a hevents former new
      have hrest := ih (some new)
      have htold : timesTold a (((former, new) :: replacements id (some new) log).flatMap (dueOf ctx)) =
          timesTold a (dueOf ctx (former, new)) + timesTold a (due ctx id (some new) log) :=
        List.countP_append
      have hset : ((former, new) :: replacements id (some new) log).countP (setsAvatar a) =
          timesSet a id (some new) log + (setsAvatar a (former, new)).toNat := by
        rw [List.countP_cons, timesSet]
        cases setsAvatar a (former, new) <;> rfl
      rw [htold, hset, Option.some_or]
      omega

end Avatars

/-! ## What is owed -/

section Owing

variable {ctx : Context} {w₀ : World} {log : WriterLog ctx}
  {m : ℕ → Option (WriterFlow ctx × Phase)}
  {i : ℕ} {f : WriterFlow ctx} {p p' : Phase} {e : WriterEntry ctx} {id : Str}

/-- What a flow still has to tell about the user. -/
def owedTo (id : Str) (q : Option (WriterFlow ctx × Phase)) : Multiset UserEvent :=
  ↑((q.elim [] (·.2.owed)).filter (·.userId = id))

/-- **What is told and what is owed is what the chain is due.** -/
def Owing (ctx : Context) (w₀ : World) (log : WriterLog ctx)
    (m : ℕ → Option (WriterFlow ctx × Phase)) : Prop :=
  ∃ n, (∀ i, n ≤ i → m i = none) ∧ ∀ id, (told id log : Multiset UserEvent) +
    ∑ i ∈ Finset.range n, owedTo id (m i) = due ctx id (get w₀.users id) log

theorem sum_update {τ M : Type} [AddCommMonoid M] (g : Option τ → M) (m : ℕ → Option τ) (x : τ)
    {i n : ℕ} (hi : i < n) :
    ∑ j ∈ Finset.range n, g (Function.update m i (some x) j) + g (m i) =
      ∑ j ∈ Finset.range n, g (m j) + g (some x) := by
  have hmem := Finset.mem_range.mpr hi
  have hrest : ∑ j ∈ (Finset.range n).erase i, g (Function.update m i (some x) j) =
      ∑ j ∈ (Finset.range n).erase i, g (m j) :=
    Finset.sum_congr rfl fun j hj => by rw [Function.update_of_ne (Finset.ne_of_mem_erase hj)]
  rw [← Finset.add_sum_erase _ _ hmem, ← Finset.add_sum_erase _ (fun j => g (m j)) hmem, hrest,
    Function.update_self]
  ac_rfl

/-- An entry, where what it tells and what is then owed is what was owed and what it is due. -/
theorem Owing.concat (h : Owing ctx w₀ log m)
    (he : ∀ id, ((toldOf id e).toList : Multiset UserEvent) + owedTo id (some (f, p)) =
      owedTo id (m i) + due ctx id (recordAfter w₀ id log) [e]) :
    Owing ctx w₀ (log ++ [e]) (Function.update m i (some (f, p))) := by
  obtain ⟨n, hn, hsum⟩ := h
  refine ⟨max n (i + 1), fun j hj => ?_, fun id => ?_⟩
  · rw [Function.update_of_ne (by omega)]
    exact hn j (le_trans (le_max_left ..) hj)
  · have hlarger : ∑ j ∈ Finset.range (max n (i + 1)), owedTo id (m j) =
        ∑ j ∈ Finset.range n, owedTo id (m j) := by
      refine (Finset.sum_subset (Finset.range_mono (le_max_left ..)) fun j _ hj => ?_).symm
      rw [hn j (by simpa using hj)]
      rfl
    have hupdate := sum_update (owedTo id) m (f, p) (lt_of_lt_of_le (Nat.lt_succ_self i)
      (le_max_right n (i + 1)))
    rw [hlarger] at hupdate
    have htold : (told id (log ++ [e]) : Multiset UserEvent) =
      told id log + (toldOf id e).toList := by
      rw [told, List.filterMap_append, ← Multiset.coe_add]
      cases h : toldOf id e <;> simp [told, h]
    have hrecord : recordFrom id (get w₀.users id) log = recordAfter w₀ id log := rfl
    refine add_right_cancel (b := owedTo id (m i)) ?_
    rw [due_append, hrecord, ← Multiset.coe_add, ← hsum id, htold, add_assoc, hupdate]
    have hone := he id
    calc _ = (told id log : Multiset UserEvent) + ∑ j ∈ Finset.range n, owedTo id (m j) +
          (((toldOf id e).toList : Multiset UserEvent) + owedTo id (some (f, p))) := by ac_rfl
      _ = _ := by rw [hone]; ac_rfl

/-- An entry that writes and tells nothing leaves what is owed. -/
theorem Owing.aside (h : Owing ctx w₀ log m) (htold : ∀ id, toldOf id e = none)
    (hwritten : ∀ id, written id e = none)
    (howed : ∀ id, owedTo id (some (f, p)) = owedTo id (m i)) :
    Owing ctx w₀ (log ++ [e]) (Function.update m i (some (f, p))) :=
  h.concat fun id => by
    rw [htold, howed, due_of_writeless (hwritten id)]
    exact add_comm ..

end Owing

/-! ## What an entry says of the log before it -/

section Told

variable {ctx : Context}

/-- A write answered. -/
def WriteBy (i : ℕ) (e : WriterEntry ctx) : Prop :=
  ∃ id patch v new, e = .called i (.updateUser id patch v) (.ok new)

/-- The user, read by a flow. -/
def ReadBy (i : ℕ) (record : UserRecord) (e : WriterEntry ctx) : Prop :=
  e = .called i (.findUser record.id) (some record) ∨
    ∃ type login, e = .called i (.findUserByLogin type login) (some record)

structure Told (ctx : Context) (w₀ : World) (l : WriterLog ctx) (e : WriterEntry ctx) : Prop where
  write : ∀ i id patch v new, e = .called i (.updateUser id patch v) (.ok new) →
    (∀ a, .ended i a ∉ l) ∧ ∃ f former, .began i f ∈ l ∧ (∃ e' ∈ l, ReadBy i former e') ∧
      former.id = id ∧ former.version = v ∧ recordAfter w₀ id l = some former ∧
      Computes ctx f former patch ∧
      new = applyPatch former patch
  refused : ∀ i e', e = .ended i (.error e') → ∃ f, .began i f ∈ l ∧
    (f.isWhole = true → ∀ e'' ∈ l, ¬ WriteBy i e'')

/-- What the log holds of a flow. -/
structure Stands (log : WriterLog ctx) (i : ℕ) (p : Phase) : Prop where
  read : ∀ record, p.seen = some record → ∃ e ∈ log, ReadBy i record e
  unwritten : p.wrote = false → ∀ e ∈ log, ¬ WriteBy i e
  ended : ∀ a, .ended i a ∈ log → p.owed = []

structure Inv (ctx : Context) (w₀ w : World) (log : WriterLog ctx)
    (m : ℕ → Option (WriterFlow ctx × Phase)) : Prop where
  histories : Histories w₀ w log fun i => (m i).bind fun q => q.2.seen
  tells : Tells (Told ctx w₀) log
  began : ∀ i f p, m i = some (f, p) → .began i f ∈ log
  stands : ∀ i f p, m i = some (f, p) → Stands log i p
  known : ∀ i, m i = none → ∀ e ∈ log, e.thread ≠ i
  owing : Owing ctx w₀ log m

variable {w₀ w w' : World} {log : WriterLog ctx} {m : ℕ → Option (WriterFlow ctx × Phase)}
  {i j : ℕ} {f : WriterFlow ctx} {p p' : Phase} {c : Call} {r : Answer c} {e : WriterEntry ctx}

theorem writeBy_thread (h : WriteBy i e) : e.thread = i := by
  obtain ⟨id, patch, v, new, rfl⟩ := h
  rfl

/-- An entry leaves where a flow stands, unless it is a write or the end of its own. -/
theorem Stands.concat (h : Stands log i p) (hwrite : ¬ WriteBy i e) (hended : ∀ r, e ≠ .ended i r) :
    Stands (log ++ [e]) i p where
  read record hseen := by
    obtain ⟨e', he', hread⟩ := h.read record hseen
    exact ⟨e', List.mem_append_left _ he', hread⟩
  unwritten hwrote e' he' := by
    obtain he' | he' := List.mem_append.mp he'
    · exact h.unwritten hwrote e' he'
    · rwa [List.mem_singleton.mp he']
  ended r hr := by
    obtain hr | hr := List.mem_append.mp hr
    · exact h.ended r hr
    · exact absurd (List.mem_singleton.mp hr).symm (hended r)

/-- An entry of another flow does. -/
theorem Stands.other (h : Stands log i p) (he : e.thread ≠ i) : Stands (log ++ [e]) i p :=
  h.concat (fun hw => he (writeBy_thread hw)) fun _ hr => he (hr ▸ rfl)

/-- An entry, where what it says is true, the history goes on, its own flow stands and what is owed
is due. -/
theorem Inv.concat (h : Inv ctx w₀ w log m) (htold : Told ctx w₀ log e)
    (hhistories : Histories w₀ w' (log ++ [e]) fun j =>
      (Function.update m i (some (f, p)) j).bind fun q => q.2.seen)
    (he : e.thread = i) (hbegan : .began i f ∈ log ++ [e]) (hstands : Stands (log ++ [e]) i p)
    (howing : Owing ctx w₀ (log ++ [e]) (Function.update m i (some (f, p)))) :
    Inv ctx w₀ w' (log ++ [e]) (Function.update m i (some (f, p))) where
  histories := hhistories
  tells := h.tells.concat htold
  began j g q hj := by
    obtain ⟨rfl, heq⟩ | ⟨-, hj⟩ := update_eq_some.mp hj
    · cases heq
      exact hbegan
    · exact List.mem_append_left _ (h.began j g q hj)
  stands j g q hj := by
    obtain ⟨rfl, heq⟩ | ⟨hji, hj⟩ := update_eq_some.mp hj
    · cases heq
      exact hstands
    · exact (h.stands j g q hj).other fun heq => hji (heq.symm.trans he)
  known j hj e' he' := by
    have hji : j ≠ i := fun heq => by
      rw [heq, Function.update_self] at hj
      cases hj
    rw [Function.update_of_ne hji] at hj
    obtain he' | he' := List.mem_append.mp he'
    · exact h.known j hj e' he'
    · rw [List.mem_singleton.mp he', he]
      exact hji.symm
  owing := howing

/-- What is seen after a flow moved. -/
theorem seen_update {record : UserRecord}
    (h : ((Function.update m i (some (f, p)) j).bind fun q => q.2.seen) = some record) :
    p.seen = some record ∧ j = i ∨ ((m j).bind fun q => q.2.seen) = some record := by
  rw [Function.update_apply] at h
  split at h
  case isTrue hji => exact Or.inl ⟨h, hji⟩
  case isFalse => exact Or.inr h

/-- A call that writes nobody, answered to a flow that then stands where it says and owes what it
did, but for what it told. -/
theorem Inv.writeless (h : Inv ctx w₀ w log m) (hi : m i = some (f, p)) (hexec : exec c w = (r, w'))
    (hc : c.Writeless)
    (hseen : ∀ record, p'.seen = some record →
      p.seen = some record ∨ ∃ id, get w.users id = some record)
    (hstands : Stands (log ++ [.called i c r]) i p')
    (howed : ∀ id, ((toldOf id (.called i c r : WriterEntry ctx)).toList : Multiset UserEvent) +
      owedTo id (some (f, p')) = owedTo id (some (f, p))) :
    Inv ctx w₀ w' (log ++ [.called i c r]) (Function.update m i (some (f, p'))) := by
  refine h.concat ?_ ?_ rfl (List.mem_append_left _ (h.began i f p hi)) hstands ?_
  · exact
      { write := by
          rintro _ _ _ _ _ ⟨⟩
          exact hc.elim
        refused := by rintro _ _ ⟨⟩ }
  · refine h.histories.concat (exec_users hexec hc) (written_of_writeless hc) fun j record hj => ?_
    obtain ⟨hp, rfl⟩ | hj := seen_update hj
    · exact (hseen record hp).imp_left fun hp => by rw [hi]; exact hp
    · exact Or.inl hj
  · refine h.owing.concat fun id => ?_
    rw [howed id, hi, due_of_writeless (written_of_writeless hc id)]
    exact (add_zero _).symm

theorem writeless_of_aside (h : Aside c) : c.Writeless := by
  cases c with
  | updateUser => exact h
  | _ => trivial

theorem toldOf_of_aside (h : Aside c) (id : Str) :
    toldOf id (.called i c r : WriterEntry ctx) = none := by
  cases c with
  | emit event userId userType at_ => exact if_neg fun hr => Bool.false_ne_true (h.symm.trans hr.1)
  | _ => rfl

/-- A call that reads a user. -/
theorem Inv.reads (h : Inv ctx w₀ w log m) (hi : m i = some (f, p)) (hexec : exec c w = (r, w'))
    (hc : Aside c) {id : Str} {record : UserRecord} (hget : get w.users id = some record)
    (hread : ReadBy i record (.called i c r : WriterEntry ctx)) :
    Inv ctx w₀ w' (log ++ [.called i c r])
      (Function.update m i (some (f, { p with seen := some record }))) := by
  have hstands := h.stands i f p hi
  refine h.writeless hi hexec (writeless_of_aside hc) ?_ ⟨?_, fun hwrote e he => ?_,
    fun r' hr' => ?_⟩
    fun id => ?_
  · rintro _ ⟨⟩
    exact Or.inr ⟨id, hget⟩
  · rintro _ ⟨⟩
    exact ⟨_, List.mem_append_right _ List.mem_cons_self, hread⟩
  · obtain he | he := List.mem_append.mp he
    · exact hstands.unwritten hwrote e he
    · rw [List.mem_singleton.mp he]
      rintro ⟨_, _, _, _, ⟨⟩⟩
      exact hc
  · obtain hr' | hr' := List.mem_append.mp hr'
    · exact hstands.ended r' hr'
    · cases List.mem_singleton.mp hr'
  · rw [toldOf_of_aside hc]
    exact zero_add _

/-- The events of a write are about the user written. -/
theorem filter_announced (events : List UserEventType) (new : UserRecord) (id : Str) :
    (announced ctx events new).filter (·.userId = id) =
      if new.id = id then announced ctx events new else [] := by
  have huser : ∀ event ∈ announced ctx events new, event.userId = new.id := by
    intro event hevent
    rw [announced] at hevent
    split at hevent
    · obtain ⟨_, -, rfl⟩ := List.mem_map.mp hevent
      rfl
    · cases hevent
  split
  case isTrue h =>
    exact List.filter_eq_self.mpr fun event he => decide_eq_true ((huser event he).trans h)
  case isFalse h =>
    exact List.filter_eq_nil_iff.mpr fun event he hid =>
      h ((huser event he).symm.trans (of_decide_eq_true hid))

/-- What a write owes is what it is due. -/
theorem owed_write {i : ℕ} {record new : UserRecord} {patch : UserPatch} (id : Str)
    (hafter : recordAfter w₀ record.id log = some record) (hnew : new = applyPatch record patch) :
    owedTo id (some (f, Phase.after ctx record patch new)) = due ctx id (recordAfter w₀ id log)
      [.called i (.updateUser record.id patch record.version) (.ok new)] := by
  have hid : new.id = record.id := by rw [hnew]; rfl
  rw [owedTo, Option.elim_some, Phase.after, filter_announced, hid]
  split
  case isTrue h =>
    subst h
    have hwritten :
      written record.id (.called i (.updateUser record.id patch record.version) (.ok new) :
        WriterEntry ctx) = some new := if_pos rfl
    rw [hafter, due_of_written hwritten, hnew]
  case isFalse h =>
    have hwritten : written id (.called i (.updateUser record.id patch record.version) (.ok new) :
        WriterEntry ctx) = none := if_neg h
    rw [due_of_writeless hwritten]

theorem Inv.step (h : Inv ctx w₀ w log m) (hi : m i = some (f, p)) (hopen : ∀ r', .ended i r' ∉ log)
    (hexec : exec c w = (r, w')) (hstep : Step ctx f p c r p') :
    Inv ctx w₀ w' (log ++ [.called i c r]) (Function.update m i (some (f, p'))) := by
  have hstands := h.stands i f p hi
  have hcall : ∀ r', (.called i c r : WriterEntry ctx) ≠ .ended i r' := fun _ => nofun
  have hends : ∀ r', .ended i r' ∉ log ++ [.called i c r] := fun r' hr' =>
    (List.mem_append.mp hr').elim (hopen r') fun h => hcall r' (List.mem_singleton.mp h).symm
  cases hstep with
  | aside hc =>
    have hwrite : ¬ WriteBy i (.called i c r : WriterEntry ctx) := by
      rintro ⟨_, _, _, _, ⟨⟩⟩
      exact hc
    refine h.writeless hi hexec (writeless_of_aside hc) (fun _ => Or.inl)
      (hstands.concat hwrite hcall)
      fun id => ?_
    rw [toldOf_of_aside hc]
    exact zero_add _
  | @read _ id record =>
    have hget : get w.users id = some record := congrArg Prod.fst hexec
    obtain rfl := h.histories.keyed id record hget
    exact h.reads hi hexec trivial hget (Or.inl rfl)
  | @readLogin _ type login record =>
    obtain ⟨⟨id, hget⟩, -⟩ := get_of_userByLogin (congrArg Prod.fst hexec)
    exact h.reads hi hexec trivial hget (Or.inr ⟨type, login, rfl⟩)
  | refused =>
    obtain rfl : w' = w := by
      have hsame := (exec_updateUser_error (congrArg Prod.fst hexec)).1
      rwa [hexec] at hsame
    refine h.concat ⟨by rintro _ _ _ _ _ ⟨⟩, by rintro _ _ ⟨⟩⟩ ?_ rfl
      (List.mem_append_left _ (h.began i f p hi))
      (hstands.concat (by rintro ⟨_, _, _, _, ⟨⟩⟩) hcall) ?_
    · refine h.histories.concat rfl (fun _ => rfl) fun j record hj => Or.inl ?_
      obtain ⟨hp, rfl⟩ | hj := seen_update hj
      · rwa [hi]
      · exact hj
    · exact h.owing.aside (fun _ => rfl) (fun _ => rfl) fun _ => by rw [hi]
  | @write record patch new hpatch =>
    obtain ⟨hafter, hnew, hnext⟩ := h.histories.write (by rw [hi]; rfl) hexec
    refine h.concat ⟨?_, by rintro _ _ ⟨⟩⟩ (hnext _ fun j record' hj => ?_) rfl
      (List.mem_append_left _ (h.began i f _ hi)) ⟨nofun, nofun, fun r hr => absurd hr (hends r)⟩
      (h.owing.concat fun id => ?_)
    · rintro _ _ _ _ _ ⟨⟩
      exact ⟨hopen, f, record, h.began i f _ hi, hstands.read record rfl, rfl, rfl, hafter,
        hpatch, hnew⟩
    · obtain ⟨hp, -⟩ | hj := seen_update hj
      · cases hp
      · exact hj
    · rw [owed_write id hafter hnew, hi]
      exact (zero_add _).trans (zero_add _).symm
  | @tell seen wrote event owed hreplaces =>
    refine h.writeless hi hexec trivial (fun _ => Or.inl)
      ⟨fun record hseen => ?_, fun hwrote e he => ?_, fun r hr => absurd hr (hends r)⟩ fun id => ?_
    · obtain ⟨e, he, hread⟩ := hstands.read record hseen
      exact ⟨e, List.mem_append_left _ he, hread⟩
    · obtain he | he := List.mem_append.mp he
      · exact hstands.unwritten hwrote e he
      · rw [List.mem_singleton.mp he]
        rintro ⟨_, _, _, _, ⟨⟩⟩
    · rw [toldOf]
      by_cases huser : event.userId = id
      · rw [if_pos ⟨hreplaces, huser⟩, owedTo, owedTo, Option.elim_some, Option.elim_some,
          List.filter_cons_of_pos (by simpa using huser)]
        rfl
      · rw [if_neg fun h => huser h.2, owedTo, owedTo, Option.elim_some, Option.elim_some,
          List.filter_cons_of_neg (by simpa using huser)]
        exact zero_add _

theorem Inv.drift (h : Inv ctx w₀ w log m) (d : Drift) : Inv ctx w₀ (drift d w) log m := by
  cases d <;> exact { h with histories := { h.histories with } }

theorem Inv.begin (h : Inv ctx w₀ w log m) (hi : m i = none) :
    Inv ctx w₀ w (log ++ [.began i f]) (Function.update m i (some (f, {}))) := by
  refine h.concat ⟨by rintro _ _ _ _ _ ⟨⟩, by rintro _ _ ⟨⟩⟩ ?_ rfl
    (List.mem_append_right _ List.mem_cons_self) ⟨nofun, fun _ e he => ?_, fun _ _ => rfl⟩ ?_
  · refine h.histories.concat rfl (fun _ => rfl) fun j record hj => Or.inl ?_
    obtain ⟨hp, -⟩ | hj := seen_update hj
    · cases hp
    · exact hj
  · obtain he | he := List.mem_append.mp he
    · exact fun hw => h.known i hi e he (writeBy_thread hw)
    · rw [List.mem_singleton.mp he]
      rintro ⟨_, _, _, _, ⟨⟩⟩
  · exact h.owing.aside (fun _ => rfl) (fun _ => rfl) fun _ => by rw [hi]; rfl

theorem Inv.finish (h : Inv ctx w₀ w log m) (hi : m i = some (f, p))
    {a : Except Failure WriterAnswer}
    (hfinal : Final f a p) : Inv ctx w₀ w (log ++ [.ended i a]) m := by
  have hstands := h.stands i f p hi
  have hm : Function.update m i (some (f, p)) = m := hi ▸ Function.update_eq_self i m
  rw [← hm]
  refine h.concat ⟨by rintro _ _ _ _ _ ⟨⟩, ?_⟩ ?_ rfl (List.mem_append_left _ (h.began i f p hi))
    ⟨fun record hseen => ?_, fun hwrote e he => ?_, fun _ _ => hfinal.1⟩ ?_
  · rintro _ _ ⟨⟩
    exact ⟨f, h.began i f p hi, fun hwhole => hstands.unwritten (hfinal.2 ⟨_, rfl⟩ hwhole)⟩
  · rw [hm]
    exact h.histories.concat rfl (fun _ => rfl) fun _ _ => Or.inl
  · obtain ⟨e, he, hread⟩ := hstands.read record hseen
    exact ⟨e, List.mem_append_left _ he, hread⟩
  · obtain he | he := List.mem_append.mp he
    · exact hstands.unwritten hwrote e he
    · rw [List.mem_singleton.mp he]
      rintro ⟨_, _, _, _, ⟨⟩⟩
  · exact h.owing.aside (fun _ => rfl) (fun _ => rfl) fun _ => by rw [hi]

theorem Inv.start (h : ∀ id record, get w.users id = some record → record.id = id) :
    Inv ctx w w [] fun _ => none where
  histories := Histories.start h
  tells := Tells.nil
  began _ _ _ h := nomatch h
  stands _ _ _ h := nomatch h
  known _ _ _ h := nomatch h
  owing := ⟨0, fun _ _ => rfl, fun _ => rfl⟩

theorem keeps (ctx : Context) (w₀ : World) : (protocol ctx).Keeps (fun _ => True) (Inv ctx w₀) where
  drift h _ := h.drift _
  began h hi _ := h.begin hi
  called h hi hopen hexec hstep := h.step hi hopen hexec hstep
  ended h hi hfinal _ := h.finish hi hfinal

end Told

/-! ## What a run leaves -/

/-- Whoever began has ended. -/
def AllEnded {ctx : Context} (log : WriterLog ctx) : Prop :=
  ∀ i f, .began i f ∈ log → ∃ a, .ended i a ∈ log

/-- The end of a flow. -/
def isEnd {ctx : Context} (i : ℕ) : WriterEntry ctx → Bool
  | .ended j _ => j = i
  | _ => false

instance {ctx : Context} (log : WriterLog ctx) : Decidable (AllEnded log) :=
  decidable_of_iff (log.all fun | .began i _ => log.any (isEnd i) | _ => true) <| by
    rw [List.all_eq_true]
    refine ⟨fun h i f hf => ?_, fun h e he => ?_⟩
    · obtain ⟨e, he, hend⟩ := List.any_eq_true.mp (h _ hf)
      cases e with
      | ended j a =>
        obtain rfl := of_decide_eq_true hend
        exact ⟨a, he⟩
      | began | called => cases hend
    · cases e with
      | began i f =>
        obtain ⟨a, ha⟩ := h i f he
        exact List.any_eq_true.mpr ⟨_, ha, decide_eq_true rfl⟩
      | called | ended => rfl

/-- The writes of a log are a chain, and the events tell it. -/
structure Chained (ctx : Context) (w : World) (log : WriterLog ctx) : Prop where
  /-- A write replaces the record the write before it left, which its flow read and computed it
  from. -/
  chain : ∀ l₁ i id patch v new l₂, log = l₁ ++ .called i (.updateUser id patch v) (.ok new) :: l₂ →
    ∃ f former, .began i f ∈ l₁ ∧ (∃ e ∈ l₁, ReadBy i former e) ∧
    recordAfter w id l₁ = some former ∧
      former.version = v ∧ Computes ctx f former patch ∧ new = applyPatch former patch ∧
      new.version = former.version + 1
  refused : ∀ l₁ i id patch v failure l₂,
    log = l₁ ++ .called i (.updateUser id patch v) (.error failure) :: l₂ →
    ∀ id', recordAfter w id' (l₁ ++ [.called i (.updateUser id patch v) (.error failure)]) =
      recordAfter w id' l₁
  unwritten : ∀ i f failure, .began i f ∈ log → .ended i (.error failure) ∈ log → f.isWhole = true →
    ∀ e ∈ log, ¬ WriteBy i e
  /-- No event is told but one the chain is due, and none twice… -/
  sound : ∀ id, (told id log).Subperm (due ctx id (get w.users id) log)
  /-- …and in the end each is. -/
  complete : AllEnded log → ∀ id, (told id log).Perm (due ctx id (get w.users id) log)
  avatars : ctx.events = true → AllEnded log → ∀ id a,
    timesTold a (told id log) + (shows a (recordAfter w id log)).toNat =
      timesSet a id (get w.users id) log + (shows a (get w.users id)).toNat
  /-- No write let the current avatar go since it was last set. -/
  current : ctx.events = true → ∀ id a l₁ l₂, log = l₁ ++ l₂ →
    shows a (recordAfter w id log) = true → timesSet a id (recordAfter w id l₁) l₂ = 0 →
    shows a (recordAfter w id l₁) = true ∧ timesTold a (due ctx id (recordAfter w id l₁) l₂) = 0

section Chained

variable {ctx : Context} {w w' : World} {log : WriterLog ctx}
  {m : ℕ → Option (WriterFlow ctx × Phase)}

theorem Inv.settled (h : Inv ctx w w' log m) (hended : AllEnded log) (id : Str) :
    (told id log).Perm (due ctx id (get w.users id) log) := by
  obtain ⟨n, -, hsum⟩ := h.owing
  have hnone : ∑ i ∈ Finset.range n, owedTo id (m i) = 0 := by
    refine Finset.sum_eq_zero fun i _ => ?_
    cases hi : m i with
    | none => rfl
    | some q =>
      obtain ⟨a, ha⟩ := hended i q.1 (h.began i q.1 q.2 hi)
      have howed := (h.stands i q.1 q.2 hi).ended a ha
      rw [owedTo, Option.elim_some, howed]
      rfl
  have hdue := hsum id
  rw [hnone, add_zero] at hdue
  exact Multiset.coe_eq_coe.mp hdue

theorem Inv.chained (h : Inv ctx w w' log m) (hunique : ∀ i f g,
    .began i f ∈ log → .began i g ∈ log → f = g) : Chained ctx w log where
  chain l₁ i id patch v new l₂ hlog := by
    obtain ⟨-, f, former, hf, hread, -, hversion, hafter, hcomputes, hnew⟩ :=
      (h.tells l₁ _ l₂ hlog).write i id patch v new rfl
    exact ⟨f, former, hf, hread, hafter, hversion, hcomputes, hnew, by rw [hnew]; rfl⟩
  refused l₁ i id patch v failure l₂ _ id' := recordAfter_concat w id' l₁ _
  unwritten i f failure hf hfailed hwhole e he hwrite := by
    obtain ⟨l₁, l₂, hlog, htold⟩ := h.tells.mem hfailed
    obtain ⟨g, hg, hnone⟩ := htold.refused i failure rfl
    obtain rfl : g = f := hunique i g f (hlog ▸ List.mem_append_left _ hg) hf
    rw [hlog] at he
    obtain he | he := List.mem_append.mp he
    · exact hnone hwhole e he hwrite
    · obtain ⟨id, patch, v, new, rfl⟩ := hwrite
      cases he with
      | tail _ he =>
        obtain ⟨l₃, l₄, rfl⟩ := List.append_of_mem he
        have hlate := h.tells (l₁ ++ .ended i (.error failure) :: l₃) _ l₄
          (by rw [hlog, List.append_assoc, List.cons_append])
        exact (hlate.write i id patch v new rfl).1 _ (List.mem_append_right _ List.mem_cons_self)
  sound id := by
    obtain ⟨n, -, hsum⟩ := h.owing
    exact Multiset.coe_le.mp ((hsum id).symm ▸ Multiset.le_add_right ..)
  complete hended := h.settled hended
  avatars hevents hended id a := by
    have hcount := @timesTold_due ctx id a hevents (get w.users id) log
    rw [timesTold, ← (h.settled hended id).countP_eq] at hcount
    exact hcount
  current hevents id a l₁ l₂ hlog hshows hset := by
    have hcount := @timesTold_due ctx id a hevents (recordAfter w id l₁) l₂
    have hrecord : recordFrom id (recordAfter w id l₁) l₂ = recordAfter w id log := by
      rw [hlog, recordAfter, recordAfter, recordFrom, List.foldl_append]
    rw [hrecord, hshows, hset] at hcount
    cases hbefore : shows a (recordAfter w id l₁) with
    | false =>
      rw [hbefore] at hcount
      simp at hcount
    | true =>
      rw [hbefore] at hcount
      exact ⟨rfl, by simpa using hcount⟩

end Chained

/-- **The writes of a run are a chain**, each computed from the record the one before it left, and
the events tell what each replaced. -/
theorem writes_told {ctx : Context} {w : World}
    (hkeyed : ∀ id record, get w.users id = some record → record.id = id)
    (moves : List (Move Drift (WriterFlow ctx))) :
    Chained ctx w ((writerService ctx).run w moves).log ∧
      ∀ id, get ((writerService ctx).run w moves).world.users id =
        recordAfter w id ((writerService ctx).run w moves).log := by
  obtain ⟨m, -, hinv⟩ := (keeps ctx w).run (Inv.start hkeyed) fun _ (_ : _ ∈ moves) => trivial
  have horderly := (writerService ctx).orderly w moves
  exact ⟨hinv.chained fun _ _ _ => horderly.unique, hinv.histories.current⟩

/-! ## An event under way -/

/-- The clinic, with a listener. -/
def listening : Context := { clinic with events := true }

/-- Ada is pointed at an image. -/
def pointed (image : Str) : WriterFlow listening :=
  .setAvatar (some patient) (.id ada.id) (.record (Record.of [(js "id", .str image)] false)) none
    (js "patient." ++ ·)

/-- At one image, at another, and at the first again, the second flow's event still under way. -/
def thereAndBack : List (Move Drift (WriterFlow listening)) :=
  .begin (pointed (js "a")) :: List.replicate 4 (.step 0) ++
    .begin (pointed (js "b")) :: List.replicate 3 (.step 1) ++
    .begin (pointed (js "a")) :: List.replicate 4 (.step 2) ++ [.step 1]

/-- Its log. -/
def thereAndBackLog : WriterLog listening :=
  ((writerService listening).run quietClinic thereAndBack).log

theorem writes_told_ada :
    Chained listening quietClinic thereAndBackLog ∧
      ∀ id, get ((writerService listening).run quietClinic thereAndBack).world.users id =
        recordAfter quietClinic id thereAndBackLog := by
  refine writes_told (fun id record h => ?_) thereAndBack
  obtain ⟨rfl, rfl⟩ := Prod.mk.inj (List.mem_singleton.mp (mem_of_get h))
  rfl

/-- All ended, and the image she points at was told let go after it was last set. -/
theorem told_late :
    AllEnded thereAndBackLog ∧ ∃ l₁ l₂ a, thereAndBackLog = l₁ ++ l₂ ∧
      shows a (recordAfter quietClinic ada.id thereAndBackLog) = true ∧
      timesSet a ada.id (recordAfter quietClinic ada.id l₁) l₂ = 0 ∧
      shows a (recordAfter quietClinic ada.id l₁) = true ∧ timesTold a (told ada.id l₂) = 1 :=
  ⟨by decide +kernel, thereAndBackLog.take 14, thereAndBackLog.drop 14, js "a",
    (List.take_append_drop ..).symm, rfl, rfl, rfl, rfl⟩

end Replacing

end Janus.Auth
