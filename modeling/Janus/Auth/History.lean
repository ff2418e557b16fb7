import Janus.Auth.Context

/-!
# Auth/History — a user's record, write by write

Every write is made under the version its flow read, and every write moves the version: so a write
answered was made on the very record read, and the log of the writes is the record's history.
-/

namespace Janus.Auth

open Js Insertion Calls

section History

variable {F α : Type}

/-- The record an entry writes for the user. -/
def written (id : Str) : Entry Call Answer F Failure α → Option UserRecord
  | .called _ (.updateUser id' _ _) (.ok record) => if id' = id then some record else none
  | _ => none

/-- The user as the writes of the log leave them. -/
def recordAfter (w : World) (id : Str) (log : List (Entry Call Answer F Failure α)) :
    Option UserRecord := log.foldl (fun record e => (written id e).or record) (get w.users id)

variable {w₀ w w' : World} {log : List (Entry Call Answer F Failure α)}
  {e : Entry Call Answer F Failure α} {id : Str} {seen : ℕ → Option UserRecord}

theorem recordAfter_concat (w : World) (id : Str) (log : List (Entry Call Answer F Failure α))
    (e : Entry Call Answer F Failure α) :
    recordAfter w id (log ++ [e]) = (written id e).or (recordAfter w id log) :=
  List.foldl_append

/-- What every write of a stretch of the log keeps, the stretch keeps. -/
theorem recordAfter_append {R : Option UserRecord → Option UserRecord → Prop} (hrefl : ∀ a, R a a)
    (htrans : ∀ a b c, R a b → R b c → R a c)
    {l₁ l₂ : List (Entry Call Answer F Failure α)}
    (hwrite : ∀ l e l' new, l₂ = l ++ e :: l' → written id e = some new →
      R (recordAfter w id (l₁ ++ l)) (some new)) :
    R (recordAfter w id l₁) (recordAfter w id (l₁ ++ l₂)) := by
  induction l₂ using List.reverseRecOn with
  | nil =>
    rw [List.append_nil]
    exact hrefl _
  | append_singleton l e ih =>
    have hstart := ih fun l' e' l'' new hl => hwrite l' e' (l'' ++ [e]) new
      (by rw [hl, List.append_assoc, List.cons_append])
    rw [← List.append_assoc, recordAfter_concat]
    cases he : written id e with
    | none => exact hstart
    | some new => exact htrans _ _ _ hstart (hwrite l e [] new rfl he)

theorem written_eq_some {record : UserRecord} (h : written id e = some record) :
    ∃ i patch v, e = .called i (.updateUser id patch v) (.ok record) := by
  unfold written at h
  split at h
  case h_1 i id' patch v record' =>
    split at h
    case isTrue heq =>
      cases h
      exact ⟨i, patch, v, by rw [heq]⟩
    case isFalse => cases h
  case h_2 => cases h

/-- What a store and a log of it agree on, and the last record each program read. -/
structure Histories (w₀ w : World) (log : List (Entry Call Answer F Failure α))
    (seen : ℕ → Option UserRecord) : Prop where
  keyed : ∀ id record, get w.users id = some record → record.id = id
  current : ∀ id, get w.users id = recordAfter w₀ id log
  /-- A record read is the current one, or an older version of it. -/
  stale : ∀ i record, seen i = some record → ∃ now, get w.users record.id = some now ∧
    record.version ≤ now.version ∧ (now.version = record.version → now = record)

theorem Histories.start (h : ∀ id record, get w.users id = some record → record.id = id) :
    Histories w w ([] : List (Entry Call Answer F Failure α)) fun _ => none where
  keyed := h
  current _ := rfl
  stale := nofun

/-- An entry that writes nobody, and what is read with it: the current record. -/
theorem Histories.concat (h : Histories w₀ w log seen) (husers : w'.users = w.users)
    (he : ∀ id, written id e = none) {seen' : ℕ → Option UserRecord}
    (hseen : ∀ i record, seen' i = some record →
      seen i = some record ∨ ∃ id, get w.users id = some record) :
    Histories w₀ w' (log ++ [e]) seen' where
  keyed := husers ▸ h.keyed
  current id := by rw [husers, h.current, recordAfter_concat, he, Option.none_or]
  stale i record hi := by
    rw [husers]
    obtain hi | ⟨id, hid⟩ := hseen i record hi
    · exact h.stale i record hi
    · obtain rfl := h.keyed id record hid
      exact ⟨record, hid, Nat.le_refl _, fun _ => rfl⟩

/-- What is read where nothing is written: the current record. -/
theorem Histories.reading (h : Histories w₀ w log seen) {seen' : ℕ → Option UserRecord}
    (hseen : ∀ i record, seen' i = some record →
      seen i = some record ∨ ∃ id, get w.users id = some record) : Histories w₀ w log seen' where
  keyed := h.keyed
  current := h.current
  stale i record hi := by
    obtain hi | ⟨id, hid⟩ := hseen i record hi
    · exact h.stale i record hi
    · obtain rfl := h.keyed id record hid
      exact ⟨record, hid, Nat.le_refl _, fun _ => rfl⟩

/-- A call that writes nobody. -/
def Call.Writeless : Call → Prop
  | .updateUser .. => False
  | _ => True

theorem exec_users {c : Call} {r : Answer c} (hexec : exec c w = (r, w')) (h : c.Writeless) :
    w'.users = w.users := by
  cases c with
  | updateUser => exact h.elim
  | _ => cases hexec; rfl

theorem written_of_writeless {i : ℕ} {c : Call} {r : Answer c} (h : c.Writeless) (id : Str) :
    written id (.called i c r : Entry Call Answer F Failure α) = none := by
  cases c with
  | updateUser => exact h.elim
  | _ => rfl

/-- **A write answered was made on the very record read.** -/
theorem Histories.write (h : Histories w₀ w log seen) {i : ℕ} {record new : UserRecord}
    {patch : UserPatch} (hseen : seen i = some record)
    (hexec : exec (.updateUser record.id patch record.version) w = (.ok new, w')) :
    recordAfter w₀ record.id log = some record ∧ new = applyPatch record patch ∧
      ∀ seen' : ℕ → Option UserRecord, (∀ j r, seen' j = some r → seen j = some r) →
        Histories w₀ w'
          (log ++ [.called i (.updateUser record.id patch record.version) (.ok new)]) seen' := by
  obtain ⟨stored, hget, hversion, hnew, hw'⟩ := exec_updateUser (congrArg Prod.fst hexec)
  rw [hexec] at hw'
  obtain ⟨now, hnow, -, hsame⟩ := h.stale i record hseen
  obtain rfl : stored = record := by
    cases hget.symm.trans hnow
    exact hsame hversion
  refine ⟨(h.current _).symm.trans hget, hnew, fun seen' hseen' => ?_⟩
  obtain rfl : w' = { w with users := put w.users stored.id new } := hw'
  have hid : new.id = stored.id := by rw [hnew]; rfl
  exact
    { keyed := fun id r hr => by
        by_cases heq : stored.id = id
        · subst heq
          cases (get_put_self ..).symm.trans hr
          exact hid
        · exact h.keyed id r ((get_put_ne _ _ heq).symm.trans hr)
      current := fun id => by
        rw [recordAfter_concat, written]
        by_cases heq : stored.id = id
        · subst heq
          rw [if_pos rfl, Option.some_or, get_put_self]
        · rw [if_neg heq, Option.none_or, get_put_ne _ _ heq, h.current]
      stale := fun j r hr => by
        obtain ⟨now', hnow', hle, hsame'⟩ := h.stale j r (hseen' j r hr)
        by_cases heq : stored.id = r.id
        · rw [← heq] at hnow' ⊢
          cases hget.symm.trans hnow'
          have hlt : r.version < new.version := by
            rw [hnew]
            exact Nat.lt_succ_of_le hle
          exact ⟨new, get_put_self .., hlt.le, fun he => absurd he hlt.ne'⟩
        · exact ⟨now', (get_put_ne _ _ heq).trans hnow', hle, hsame'⟩ }

/-- …and whoever read the user before it read an older record. -/
theorem Histories.newer (h : Histories w₀ w log seen) {j : ℕ} {record new : UserRecord}
    {patch : UserPatch} {v : ℕ} (hseen : seen j = some record)
    (hexec : exec (.updateUser record.id patch v) w = (.ok new, w')) : new ≠ record := by
  obtain ⟨stored, hget, -, rfl, -⟩ := exec_updateUser (congrArg Prod.fst hexec)
  obtain ⟨now, hnow, hle, -⟩ := h.stale j record hseen
  cases hget.symm.trans hnow
  intro heq
  exact Nat.not_succ_le_self _ ((congrArg UserRecord.version heq).le.trans hle)

end History

end Janus.Auth
