import Janus.Auth.AppCodes
import Mathlib.Data.List.Perm.Basic

/-!
# Auth/RecoveryCodes — a recovery code works once

A recovery erases the one hash it found, on the record it read; nothing puts a hash on a record but
the minting of its code (`Rewrites.codes`).
-/

namespace Janus.Auth

open Js Insertion Calls

/-- The flows that mint recovery codes. -/
def FactorFlow.Mints : FactorFlow → Prop
  | .activate .. | .regenerate .. => True
  | _ => False

namespace FactorWrites

/-! ## The codes of a record -/

/-- The hashes of the user's recovery codes, as the writes of the log leave them. -/
def codesAfter (w : World) (id : Str) (log : FactorLog) : List Str :=
  (factorAfter w id log).elim [] (·.recoveryCodes)

/-- A write that leaves minted codes. -/
def Minting (log : FactorLog) (id : Str) (e : FactorEntry) : Prop :=
  ∃ f new, WroteBy log id f e new ∧ f.Mints

/-- …of what its own call drew before. -/
def Mints (ctx : Context) (log l : FactorLog) (id hash : Str) (e : FactorEntry) : Prop :=
  Minting log id e ∧ ∃ drawn hashes, (∀ n ∈ drawn, .called e.thread .draw n ∈ l) ∧
    Minted ctx id drawn hashes ∧ hash ∈ hashes

/-- A recovery's write: it erases the hash it found for what was typed, and nothing else. -/
def Uses (ctx : Context) (w : World) (log l : FactorLog) (id hash : Str) (e : FactorEntry) : Prop :=
  ∃ type challenge code at_ new old factor k,
  WroteBy log id (.recover type challenge code at_) e new ∧
    recordAfter w id l = some old ∧ old.secondFactor = some factor ∧
    Found ctx id factor.recoveryCodes code k hash ∧
    new = { old with
      secondFactor := some { factor with recoveryCodes := factor.recoveryCodes.eraseIdx k }
      version := old.version + 1
      updatedAt := new.updatedAt }

/-- So many of the entries of a stretch of the log use the hash. -/
inductive UsedTimes (ctx : Context) (w : World) (log : FactorLog) (id hash : Str) (l₁ : FactorLog) :
    FactorLog → ℕ → Prop
  | nil : UsedTimes ctx w log id hash l₁ [] 0
  | use {l₂ e n} (h : UsedTimes ctx w log id hash l₁ l₂ n)
    (he : Uses ctx w log (l₁ ++ l₂) id hash e) :
    UsedTimes ctx w log id hash l₁ (l₂ ++ [e]) (n + 1)
  | skip {l₂ e n} (h : UsedTimes ctx w log id hash l₁ l₂ n) :
    UsedTimes ctx w log id hash l₁ (l₂ ++ [e]) n

/-! ## What a write does to them -/

section Codes

variable {ctx : Context} {userId typed hash : Str} {hashes : List Str} {drawn : List ℕ}
  {f : FactorFlow}
  {old new : Option SecondFactorRecord} {k : ℕ}

/-- The hash found is erased once. -/
theorem Found.count_eraseIdx (h : Found ctx userId hashes typed k hash) :
    (hashes.eraseIdx k).count hash + 1 = hashes.count hash := by
  obtain ⟨sealer, where_, hget, -⟩ := h
  obtain ⟨hlt, rfl⟩ := List.getElem?_eq_some_iff.mp hget
  rw [← (List.getElem_cons_eraseIdx_perm hlt).count_eq, List.count_cons_self]

/-- The codes a write leaves are some of those it read, unless it mints them. -/
theorem Rewrites.sublist (h : Rewrites ctx userId drawn old f new) (hf : ¬ f.Mints) :
    (new.elim [] (·.recoveryCodes)).Sublist (old.elim [] (·.recoveryCodes)) := by
  cases f with
  | enroll =>
    obtain ⟨-, sealed, rfl⟩ := h
    exact List.nil_sublist _
  | disable =>
    cases h
    exact List.nil_sublist _
  | activate | regenerate => exact absurd trivial hf
  | confirm | stepUp =>
    obtain ⟨factor, accepted, rfl, ⟨plain, step, secret, -, -, rfl⟩, rfl⟩ := h
    exact List.Sublist.refl _
  | recover =>
    obtain ⟨factor, k, hash, rfl, -, rfl⟩ := h
    exact List.eraseIdx_sublist ..

theorem Rewrites.minted (h : Rewrites ctx userId drawn old f new) (hf : f.Mints) :
    Minted ctx userId drawn (new.elim [] (·.recoveryCodes)) := by
  cases f with
  | activate =>
    obtain ⟨factor, accepted, at_, hashes, -, -, hminted, rfl⟩ := h
    exact hminted
  | regenerate =>
    obtain ⟨factor, accepted, hashes, -, -, hminted, rfl⟩ := h
    exact hminted
  | enroll | disable | confirm | stepUp | recover => exact hf.elim

end Codes

/-! ## What the log says of them -/

section Log

variable {ctx : Context} {w : World} {log l₁ l₂ l₃ : FactorLog} {e : FactorEntry} {f : FactorFlow}
  {id hash : Str} {old new : UserRecord} {n : ℕ}

theorem codesAfter_eq (h : recordAfter w id log = some old) :
    codesAfter w id log = old.secondFactor.elim [] (·.recoveryCodes) := by
  rw [codesAfter, factorAfter_eq_some h]

theorem codesAfter_concat_of_none (h : written id e = none) :
    codesAfter w id (log ++ [e]) = codesAfter w id log := by
  rw [codesAfter, factorAfter, recordAfter_concat, h, Option.none_or]
  rfl

theorem codesAfter_wrote (h : written id e = some new) :
    codesAfter w id (log ++ [e]) = new.secondFactor.elim [] (·.recoveryCodes) :=
  codesAfter_eq (by rw [recordAfter_concat, h, Option.some_or])

/-- A recovery's write uses a hash. -/
theorem Lawful.uses (h : Lawful ctx w log) (hlog : log = l₁ ++ e :: l₂) {type : ResolvedType}
    {challenge code : Str} {at_ : At}
    (hwrote : WroteBy log id (.recover type challenge code at_) e new) :
    ∃ hash, Uses ctx w log l₁ id hash e := by
  obtain ⟨old, _, drawn, hold, ⟨factor, k, hash, hfactor, hfound, rfl⟩, -, hnew⟩ :=
    h.rewrites hlog hwrote
  exact ⟨hash, type, challenge, code, at_, new, old, factor, k, hwrote, hold, hfactor, hfound, hnew⟩

theorem Uses.count (h : Uses ctx w log l₁ id hash e) :
    (codesAfter w id (l₁ ++ [e])).count hash + 1 = (codesAfter w id l₁).count hash := by
  obtain ⟨_, _, _, _, new, old, factor, k, hwrote, hold, hfactor, hfound, hnew⟩ := h
  rw [codesAfter_wrote hwrote.1, codesAfter_eq hold, hfactor, hnew]
  exact hfound.count_eraseIdx

/-- An entry that mints nothing adds no hash. -/
theorem Lawful.codes_sublist (h : Lawful ctx w log) (hlog : log = l₁ ++ e :: l₂)
    (he : ¬ Minting log id e) : (codesAfter w id (l₁ ++ [e])).Sublist (codesAfter w id l₁) := by
  cases hnew : written id e with
  | none =>
    rw [codesAfter_concat_of_none hnew]
  | some new =>
    obtain ⟨f, hwrote⟩ := h.wroteBy (hlog ▸ List.mem_append_right _ List.mem_cons_self) hnew
    obtain ⟨old, factor, drawn, hold, hrewrites, -, heq⟩ := h.rewrites hlog hwrote
    rw [codesAfter_wrote hnew, codesAfter_eq hold, heq]
    exact hrewrites.sublist fun hf => he ⟨f, new, hwrote, hf⟩

/-- **A hash is used no oftener than it is held**, until other codes are minted. -/
theorem Lawful.usedTimes (h : Lawful ctx w log) (hused : UsedTimes ctx w log id hash l₁ l₂ n) :
    ∀ l₃, log = l₁ ++ l₂ ++ l₃ → (∀ e ∈ l₂, ¬ Minting log id e) →
      n + (codesAfter w id (l₁ ++ l₂)).count hash ≤ (codesAfter w id l₁).count hash := by
  induction hused with
  | nil =>
    intro l₃ _ _
    rw [List.append_nil, Nat.zero_add]
  | @use l₂ e n hused he ih =>
    intro l₃ hlog hsame
    have hbefore := ih (e :: l₃) (by rw [hlog]; simp) fun e he =>
      hsame e (List.mem_append_left _ he)
    have hcount := he.count
    rw [List.append_assoc] at hcount
    omega
  | @skip l₂ e n hused ih =>
    intro l₃ hlog hsame
    have hbefore := ih (e :: l₃) (by rw [hlog]; simp) fun e he =>
      hsame e (List.mem_append_left _ he)
    have hsplit : log = (l₁ ++ l₂) ++ e :: l₃ := by rw [hlog]; simp
    have hsub := h.codes_sublist hsplit (hsame e (List.mem_append_right _ List.mem_cons_self))
    have hcount := hsub.count_le hash
    rw [List.append_assoc] at hcount
    omega

/-- **A hash on a later record was on the earlier one, or was minted since.** -/
theorem Lawful.fresh (h : Lawful ctx w log) (hlog : log = l₁ ++ l₂ ++ l₃)
    (hash_mem : hash ∈ codesAfter w id (l₁ ++ l₂)) :
    hash ∈ codesAfter w id l₁ ∨
      ∃ l e l', l₂ = l ++ e :: l' ∧ Mints ctx log (l₁ ++ l) id hash e := by
  induction l₂ using List.reverseRecOn generalizing l₃ with
  | nil =>
    rw [List.append_nil] at hash_mem
    exact Or.inl hash_mem
  | append_singleton l e ih =>
    have hsplit : log = (l₁ ++ l) ++ e :: l₃ := by rw [hlog]; simp
    rw [← List.append_assoc] at hash_mem
    by_cases he : Minting log id e
    · obtain ⟨f, new, hwrote, hf⟩ := he
      obtain ⟨old, factor, drawn, hold, hrewrites, hdrawn, heq⟩ := h.rewrites hsplit hwrote
      rw [codesAfter_wrote hwrote.1, heq] at hash_mem
      exact Or.inr ⟨l, e, [], rfl, ⟨f, new, hwrote, hf⟩, drawn, _, hdrawn,
        hrewrites.minted hf, hash_mem⟩
    · have hbefore := (h.codes_sublist hsplit he).subset hash_mem
      obtain hold | ⟨l', e', l'', rfl, hmints⟩ := ih hsplit hbefore
      · exact Or.inl hold
      · exact Or.inr ⟨l', e', l'' ++ [e], by simp, hmints⟩

end Log

end FactorWrites

open FactorWrites in
/-- **A recovery code works once.**  However the calls on a user's factor interleave, and whatever
codes are given: a recovery's write erases the one hash it found, on the record it is made on, and
leaves all else; a session opens after its own call's write, once for each; a hash is used no
oftener than the record holds it, until other codes are minted; and a hash on a later record was
there before, or was minted since, of what the minting call drew. -/
theorem recovery_code_once (ctx : Context) (w : World)
    (moves : List (Move Drift FactorFlow)) (id : Str)
    (hkeyed : ∀ id record, get w.users id = some record → record.id = id) :
    let run := (factorService ctx).run w moves
    get run.world.users id = recordAfter w id run.log ∧
    (∀ l₁ e l₂ type challenge code at_ new, run.log = l₁ ++ e :: l₂ →
      WroteBy run.log id (.recover type challenge code at_) e new →
      ∃ hash, Uses ctx w run.log l₁ id hash e) ∧
    (∀ l₁ e l₂ i, run.log = l₁ ++ e :: l₂ →
      (SessionBy i e → (∃ e' ∈ l₁, WriteBy i e') ∧ ∀ e' ∈ l₁, ¬ SessionBy i e') ∧
        (WriteBy i e → ∀ e' ∈ l₁, ¬ WriteBy i e')) ∧
    (∀ l₁ l₂ l₃ hash n, run.log = l₁ ++ l₂ ++ l₃ → (∀ e ∈ l₂, ¬ Minting run.log id e) →
      UsedTimes ctx w run.log id hash l₁ l₂ n →
      n + (codesAfter w id (l₁ ++ l₂)).count hash ≤ (codesAfter w id l₁).count hash) ∧
    ∀ l₁ l₂ l₃ hash, run.log = l₁ ++ l₂ ++ l₃ → hash ∈ codesAfter w id (l₁ ++ l₂) →
      hash ∈ codesAfter w id l₁ ∨
        ∃ l e l', l₂ = l ++ e :: l' ∧ Mints ctx run.log (l₁ ++ l) id hash e := by
  obtain ⟨hlawful, hcurrent⟩ := lawful ctx hkeyed moves
  refine ⟨hcurrent id, fun l₁ e l₂ type challenge code at_ new hlog => hlawful.uses hlog,
    fun l₁ e l₂ i hlog => ⟨(hlawful.told l₁ e l₂ hlog).session i, ?_⟩,
    fun l₁ l₂ l₃ hash n hlog hsame hused => hlawful.usedTimes hused l₃ hlog hsame,
    fun l₁ l₂ l₃ hash => hlawful.fresh⟩
  rintro ⟨id, patch, v, new, rfl⟩
  exact ((hlawful.told l₁ _ l₂ hlog).write i id patch v new rfl).1

/-- A recovery code, typed at both of two sign-ins. -/
def recoveredAtBoth : List (Move Drift FactorFlow) :=
  [.begin (.recover patient (js "one") (js "00000-00000") (js "patient." ++ ·)),
    .begin (.recover patient (js "two") (js "00000-00000") (js "patient." ++ ·))] ++
    List.replicate 14 (.step 0) ++ List.replicate 14 (.step 1)

set_option maxRecDepth 2048 in
open FactorWrites in
/-- It is used once, by the first: no hash of it is left. -/
theorem recovery_code_once_at_both :
    let log := ((factorService clinic).run twoWaiting recoveredAtBoth).log
    stepsWritten ada.id log = [(0, none)] ∧ codesAfter twoWaiting ada.id log = [] ∧
      ∃ l₁ e hash, Uses clinic twoWaiting log l₁ ada.id hash e := by
  have hwrites : stepsWritten ada.id ((factorService clinic).run twoWaiting recoveredAtBoth).log =
      [(0, none)] := by decide +kernel
  have hkeyed : ∀ id record, get twoWaiting.users id = some record → record.id = id := by
    intro id record h
    obtain ⟨rfl, rfl⟩ := by simpa [twoWaiting, Insertion.get] using h
    rfl
  obtain ⟨-, huses, -⟩ := recovery_code_once clinic twoWaiting recoveredAtBoth ada.id hkeyed
  obtain ⟨l₁, e, l₂, hlog, -, he, -⟩ := List.filterMap_eq_cons_iff.mp hwrites
  obtain ⟨new, hnew, heq⟩ := Option.map_eq_some_iff.mp he
  have hbegan : .began e.thread (.recover patient (js "one") (js "00000-00000") (js "patient." ++ ·)) ∈
      ((factorService clinic).run twoWaiting recoveredAtBoth).log := by
    rw [(Prod.mk.inj heq).1]
    exact List.mem_of_getElem? (i := 0) rfl
  obtain ⟨hash, hused⟩ := huses l₁ e l₂ _ _ _ _ new hlog ⟨hnew, hbegan⟩
  exact ⟨hwrites, by decide +kernel, l₁, e, hash, hused⟩

end Janus.Auth
