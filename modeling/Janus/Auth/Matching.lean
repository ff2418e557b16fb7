import Janus.Auth.Context

/-!
# Auth/Matching — which password a record holds

Whatever happens to a record, its hash is the one it was read with, one the hasher made, or none; so
whoever verified a password once can tell, reading the record again, whether it is still held.
-/

namespace Janus.Auth

open Js Insertion Calls

variable {ctx : Context}

/-! ## Holding a password -/

/-- A password matches a stored hash: the first verifier claiming its prefix says so. -/
def Matches (ctx : Context) (password hash : Str) : Prop :=
  ∃ verifier, ctx.verifiers.find? (·.hashPrefix.isPrefixOf hash) = some verifier ∧
    verifier.verify password hash = .ok true

/-- What a record holds: a password, or none. -/
def Holds (ctx : Context) : Option Str → UserRecord → Prop
  | none, record => record.password = none
  | some password, record =>
    ∃ stored, record.password = some stored ∧ Matches ctx password stored.hash

/-- A hash matches one password. -/
theorem Matches.unique {p q hash : Str} (hp : Matches ctx p hash) (hq : Matches ctx q hash) :
    p = q := by
  obtain ⟨verifier, hfind, hp⟩ := hp
  obtain ⟨verifier', hfind', hq⟩ := hq
  cases hfind.symm.trans hfind'
  exact verifier.verify_unique hp hq

theorem Holds.unique {held held' : Option Str} {record : UserRecord} (h : Holds ctx held record)
    (h' : Holds ctx held' record) : held = held' := by
  cases held with
  | none =>
    cases held' with
    | none => rfl
    | some q =>
      obtain ⟨stored, hstored, -⟩ := h'
      cases (show record.password = none from h).symm.trans hstored
  | some p =>
    obtain ⟨stored, hstored, hp⟩ := h
    cases held' with
    | none => cases (show record.password = none from h').symm.trans hstored
    | some q =>
      obtain ⟨stored', hstored', hq⟩ := h'
      cases hstored.symm.trans hstored'
      exact congrArg some (hp.unique hq)

/-- What a record holds is decided by its hash. -/
theorem Holds.congr {held : Option Str} {record record' : UserRecord} (h : Holds ctx held record)
    (heq : record'.password.map (·.hash) = record.password.map (·.hash)) :
    Holds ctx held record' := by
  cases held with
  | none => exact Option.map_eq_none_iff.mp (heq.trans (congrArg _ h))
  | some p =>
    obtain ⟨stored, hstored, hp⟩ := h
    rw [hstored, Option.map_some] at heq
    obtain ⟨stored', hstored', hhash⟩ := Option.map_eq_some_iff.mp heq
    exact ⟨stored', hstored', hhash ▸ hp⟩

/-- A hash the wired hasher made of a password. -/
def Made (ctx : Context) (plain hash : Str) : Prop :=
  ∃ hasher salt, ctx.hasher = some hasher ∧ hash = hasher.hash plain salt

/-- It is the hasher that is asked of such a hash. -/
theorem Made.find {plain hash : Str} (h : Made ctx plain hash) :
    ∃ hasher, ctx.verifiers.find? (·.hashPrefix.isPrefixOf hash) = some hasher ∧
      ∀ given, hasher.verify given hash = .ok (decide (given = plain)) := by
  obtain ⟨hasher, salt, hhasher, rfl⟩ := h
  refine ⟨hasher, ?_, fun given => hasher.verify_hash plain given salt⟩
  rw [Context.verifiers, hhasher, Option.toList_some, List.singleton_append, List.find?_cons,
    hasher.hash_hashPrefix]

theorem Made.matches {plain hash : Str} (h : Made ctx plain hash) : Matches ctx plain hash := by
  obtain ⟨hasher, hfind, hverify⟩ := h.find
  exact ⟨hasher, hfind, (hverify plain).trans (by rw [decide_eq_true rfl])⟩

/-! ## Comparing one -/

/-- A comparison that answers `true` is a match. -/
theorem holds_of_passwordMatches {record : UserRecord} {password where_ : Str}
    (h : passwordMatches ctx record password where_ = .ok true) :
    Holds ctx (some password) record := by
  unfold passwordMatches at h
  split at h
  case h_1 => cases h
  case h_2 stored hstored =>
    dsimp only at h
    split at h
    case h_1 => cases h
    case h_2 verifier hfind =>
      split at h
      case h_1 answer hverify =>
        cases h
        exact ⟨stored, hstored, verifier, hfind, hverify⟩
      case h_2 => cases h

/-- …and one that answers `false` is none. -/
theorem not_holds_of_passwordMatches {record : UserRecord} {password where_ : Str}
    (h : passwordMatches ctx record password where_ = .ok false) :
    ¬ Holds ctx (some password) record := by
  rintro ⟨stored, hstored, verifier, hfind, hverify⟩
  unfold passwordMatches at h
  rw [hstored] at h
  dsimp only at h
  rw [hfind] at h
  dsimp only at h
  rw [hverify] at h
  cases h

/-- No comparison with a hash the hasher made throws. -/
theorem passwordMatches_made {record : UserRecord} {stored : PasswordRecord}
    (hstored : record.password = some stored) {plain : Str} (h : Made ctx plain stored.hash)
    (password where_ : Str) :
    passwordMatches ctx record password where_ = .ok (decide (password = plain)) := by
  obtain ⟨hasher, hfind, hverify⟩ := h.find
  unfold passwordMatches
  rw [hstored]
  dsimp only
  rw [hfind]
  dsimp only
  rw [hverify]
  rfl

/-! ## A record read, and what became of it -/

/-- What is known of a record once read, whatever was written since. -/
structure Known (ctx : Context) (read current : UserRecord) : Prop where
  id : current.id = read.id
  type : current.type = read.type
  le : read.version ≤ current.version
  same : read.version = current.version → current = read
  password : current.password.map (·.hash) = read.password.map (·.hash) ∨
    current.password = none ∨
    ∃ plain stored, current.password = some stored ∧ Made ctx plain stored.hash

theorem Known.refl (ctx : Context) (record : UserRecord) : Known ctx record record where
  id := rfl
  type := rfl
  le := Nat.le_refl _
  same _ := rfl
  password := Or.inl rfl

/-- A write of the current record: it moves the version, and the password to nothing, to one the
hasher hashed, or not at all. -/
structure Rewritten (ctx : Context) (current written : UserRecord) : Prop where
  id : written.id = current.id
  type : written.type = current.type
  version : written.version = current.version + 1
  password : written.password.map (·.hash) = current.password.map (·.hash) ∨
    written.password = none ∨
    ∃ plain stored, written.password = some stored ∧ Made ctx plain stored.hash

theorem Known.rewritten {read current written : UserRecord} (h : Known ctx read current)
    (hwrite : Rewritten ctx current written) : Known ctx read written where
  id := hwrite.id.trans h.id
  type := hwrite.type.trans h.type
  le := hwrite.version ▸ Nat.le_succ_of_le h.le
  same heq := by
    have := h.le
    have := hwrite.version
    omega
  password := by
    rcases hwrite.password with heq | hnone | hmade
    · rcases h.password with heq' | hnone | ⟨plain, stored, hstored, hmade⟩
      · exact Or.inl (heq.trans heq')
      · exact Or.inr (Or.inl (Option.map_eq_none_iff.mp (heq.trans (congrArg _ hnone))))
      · rw [hstored, Option.map_some] at heq
        obtain ⟨stored', hstored', hhash⟩ := Option.map_eq_some_iff.mp heq
        exact Or.inr (Or.inr ⟨plain, stored', hstored', hhash ▸ hmade⟩)
    · exact Or.inr (Or.inl hnone)
    · exact Or.inr (Or.inr hmade)

end Janus.Auth
