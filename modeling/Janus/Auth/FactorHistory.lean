import Janus.Auth.FactorWrites

/-!
# Auth/FactorHistory — the factors a user had, write by write

Every write of a run was made on the record the writes before it left (`Told.write`); so a history
is read off the log alone, and what each flow may write gives what a run may (`FactorWrites.told`).
-/

namespace Janus.Auth

open Js Insertion Calls

/-- The log of a run of these flows. -/
abbrev FactorLog := List FactorEntry

namespace FactorWrites

/-! ## What an entry says of the log before it -/

/-- A write answered. -/
def WriteBy (i : ℕ) (e : FactorEntry) : Prop :=
  ∃ id patch v new, e = .called i (.updateUser id patch v) (.ok new)

/-- A session stored. -/
def SessionBy (i : ℕ) (e : FactorEntry) : Prop :=
  ∃ session r, e = .called i (.insertSession session) r

/-- A challenge with a code of its own, counted. -/
def EmailedBy (i : ℕ) (e : FactorEntry) : Prop :=
  ∃ hash kind t, e = .called i (.countAttempt hash kind) (some t) ∧ t.codeHash ≠ none

structure Told (ctx : Context) (w₀ : World) (l : FactorLog) (e : FactorEntry) : Prop where
  write : ∀ i id patch v new, e = .called i (.updateUser id patch v) (.ok new) →
    (∀ e' ∈ l, ¬ WriteBy i e') ∧ ∃ f old drawn, .began i f ∈ l ∧ old.id = id ∧
      recordAfter w₀ id l = some old ∧ new = applyPatch old patch ∧
      (∀ n ∈ drawn, .called i .draw n ∈ l) ∧ Writes ctx f drawn old patch
  session : ∀ i, SessionBy i e → (∃ e' ∈ l, WriteBy i e') ∧ ∀ e' ∈ l, ¬ SessionBy i e'
  ended : ∀ i a, e = .ended i (.ok a) → ∃ f, .began i f ∈ l ∧
    ((∃ e' ∈ l, WriteBy i e') ∨
      (∃ type presented challenge code at_, f = .stepUp type presented challenge code at_) ∧
        ∃ e' ∈ l, EmailedBy i e')

/-! ## The invariant -/

/-- The last record a flow read, while it has not written. -/
def Phase.seen : Phase → Option UserRecord
  | .before seen _ => seen
  | _ => none

/-- What the log holds of a flow. -/
def Stands (log : FactorLog) (i : ℕ) : Phase → Prop
  | .before _ drawn => (∀ e ∈ log, ¬ WriteBy i e ∧ ¬ SessionBy i e) ∧
    ∀ n ∈ drawn, .called i .draw n ∈ log
  | .emailed => (∀ e ∈ log, ¬ WriteBy i e ∧ ¬ SessionBy i e) ∧ ∃ e ∈ log, EmailedBy i e
  | .wrote => (∃ e ∈ log, WriteBy i e) ∧ ∀ e ∈ log, ¬ SessionBy i e
  | .opened => ∃ e ∈ log, WriteBy i e

structure Inv (ctx : Context) (w₀ w : World) (log : FactorLog)
    (m : ℕ → Option (FactorFlow × Phase)) : Prop where
  histories : Histories w₀ w log fun i => (m i).bind fun q => q.2.seen
  tells : Tells (Told ctx w₀) log
  began : ∀ i f p, m i = some (f, p) → .began i f ∈ log
  stands : ∀ i f p, m i = some (f, p) → Stands log i p
  known : ∀ i, m i = none → ∀ e ∈ log, e.thread ≠ i

section Inv

variable {ctx : Context} {w₀ w w' : World} {log : FactorLog} {m : ℕ → Option (FactorFlow × Phase)}
  {i j : ℕ} {f : FactorFlow} {p p' : Phase} {c : Call} {r : Answer c} {e : FactorEntry}

theorem Stands.concat (h : Stands log i p) (hwrite : ¬ WriteBy i e) (hsession : ¬ SessionBy i e) :
    Stands (log ++ [e]) i p := by
  have hall : ∀ {P : FactorEntry → Prop}, (∀ e' ∈ log, P e') → P e → ∀ e' ∈ log ++ [e], P e' :=
    fun h he e' he' => (List.mem_append.mp he').elim (h e') fun h => List.mem_singleton.mp h ▸ he
  have hsome : ∀ {P : FactorEntry → Prop}, (∃ e' ∈ log, P e') → ∃ e' ∈ log ++ [e], P e' :=
    fun ⟨e', he', h⟩ => ⟨e', List.mem_append_left _ he', h⟩
  cases p with
  | before seen drawn =>
    exact ⟨hall h.1 ⟨hwrite, hsession⟩, fun n hn => List.mem_append_left _ (h.2 n hn)⟩
  | emailed => exact ⟨hall h.1 ⟨hwrite, hsession⟩, hsome h.2⟩
  | wrote => exact ⟨hsome h.1, hall h.2 hsession⟩
  | opened => exact hsome h

theorem writeBy_thread (h : WriteBy i e) : e.thread = i := by
  obtain ⟨id, patch, v, new, rfl⟩ := h
  rfl

theorem sessionBy_thread (h : SessionBy i e) : e.thread = i := by
  obtain ⟨session, r, rfl⟩ := h
  rfl

/-- An entry of another flow leaves where one stands. -/
theorem Stands.other (h : Stands log i p) (he : e.thread ≠ i) : Stands (log ++ [e]) i p :=
  h.concat (fun hw => he (writeBy_thread hw)) fun hs => he (sessionBy_thread hs)

/-- An entry, where what it says is true, the history goes on, and its own flow stands. -/
theorem Inv.concat (h : Inv ctx w₀ w log m) (htold : Told ctx w₀ log e)
    (hhistories : Histories w₀ w' (log ++ [e]) fun j =>
      (Function.update m i (some (f, p)) j).bind fun q => q.2.seen)
    (he : e.thread = i) (hbegan : .began i f ∈ log ++ [e]) (hstands : Stands (log ++ [e]) i p) :
    Inv ctx w₀ w' (log ++ [e]) (Function.update m i (some (f, p))) where
  histories := hhistories
  tells := h.tells.concat htold
  began j g q hj := by
    obtain ⟨rfl, heq⟩ | ⟨-, hj⟩ := update_eq_some.mp hj
    · cases heq
      exact hbegan
    · exact List.mem_append_left _ (h.began j g q hj)
  stands j g q hj := by
    obtain ⟨rfl, heq⟩ | ⟨hji, hj⟩ := update_eq_some.mp hj
    · cases heq
      exact hstands
    · exact (h.stands j g q hj).other fun heq => hji (heq.symm.trans he)
  known j hj e' he' := by
    have hji : j ≠ i := fun heq => by
      rw [heq, Function.update_self] at hj
      cases hj
    rw [Function.update_of_ne hji] at hj
    obtain he' | he' := List.mem_append.mp he'
    · exact h.known j hj e' he'
    · rw [List.mem_singleton.mp he', he]
      exact hji.symm

/-- What is seen after a flow moved. -/
theorem seen_update {record : UserRecord}
    (h : ((Function.update m i (some (f, p)) j).bind fun q => q.2.seen) = some record) :
    p.seen = some record ∧ j = i ∨ ((m j).bind fun q => q.2.seen) = some record := by
  rw [Function.update_apply] at h
  split at h
  case isTrue hji => exact Or.inl ⟨h, hji⟩
  case isFalse => exact Or.inr h

/-- A call that writes nobody, answered to a flow that then stands where it says. -/
theorem Inv.writeless (h : Inv ctx w₀ w log m) (hi : m i = some (f, p)) (hexec : exec c w = (r, w'))
    (hc : c.Writeless)
    (hseen : ∀ record, p'.seen = some record →
      p.seen = some record ∨ ∃ id, get w.users id = some record)
    (hsession : SessionBy i (.called i c r) →
      (∃ e' ∈ log, WriteBy i e') ∧ ∀ e' ∈ log, ¬ SessionBy i e')
    (hstands : Stands (log ++ [.called i c r]) i p') :
    Inv ctx w₀ w' (log ++ [.called i c r]) (Function.update m i (some (f, p'))) := by
  refine h.concat ?_ ?_ rfl (List.mem_append_left _ (h.began i f p hi)) hstands
  · exact
      { write := by
          rintro _ _ _ _ _ ⟨⟩
          exact hc.elim
        session := fun j hj => by
          obtain rfl : i = j := sessionBy_thread hj
          exact hsession hj
        ended := by rintro _ _ ⟨⟩ }
  · refine h.histories.concat (exec_users hexec hc) (written_of_writeless hc) fun j record hj => ?_
    obtain ⟨hp, rfl⟩ | hj := seen_update hj
    · exact (hseen record hp).imp_left fun hp => by rw [hi]; exact hp
    · exact Or.inl hj

theorem Inv.step (h : Inv ctx w₀ w log m) (hi : m i = some (f, p)) (hexec : exec c w = (r, w'))
    (hstep : Step ctx f p c r p') :
    Inv ctx w₀ w' (log ++ [.called i c r]) (Function.update m i (some (f, p'))) := by
  have hstands := h.stands i f p hi
  cases hstep with
  | idle hidle =>
    refine h.writeless hi hexec (by cases c <;> first | exact hidle | trivial) (fun _ => Or.inl) ?_
      (hstands.concat ?_ ?_)
    · rintro ⟨_, _, ⟨⟩⟩
      exact hidle.elim
    · rintro ⟨_, _, _, _, ⟨⟩⟩
      exact hidle
    · rintro ⟨_, _, ⟨⟩⟩
      exact hidle
  | @drew _ seen drawn n =>
    have hnext : Stands (log ++ [.called i .draw n]) i (.before seen drawn) :=
      hstands.concat (by rintro ⟨_, _, _, _, ⟨⟩⟩) (by rintro ⟨_, _, ⟨⟩⟩)
    refine h.writeless hi hexec trivial (fun _ => Or.inl) (by rintro ⟨_, _, ⟨⟩⟩)
      ⟨hnext.1, fun n' hn' => ?_⟩
    obtain hn' | hn' := List.mem_append.mp hn'
    · exact hnext.2 n' hn'
    · rw [List.mem_singleton.mp hn']
      exact List.mem_append_right _ List.mem_cons_self
  | @read _ _ drawn id record =>
    refine h.writeless hi hexec trivial (fun _ hr => Or.inr ⟨id, ?_⟩) (by rintro ⟨_, _, ⟨⟩⟩)
      (Stands.concat (p := .before _ drawn) hstands (by rintro ⟨_, _, _, _, ⟨⟩⟩) (by rintro ⟨_, _, ⟨⟩⟩))
    exact (congrArg Prod.fst hexec).trans hr
  | refused e =>
    obtain rfl : w' = w := by
      have hsame := (exec_updateUser_error (congrArg Prod.fst hexec)).1
      rwa [hexec] at hsame
    refine h.concat ⟨by rintro _ _ _ _ _ ⟨⟩, by rintro _ ⟨_, _, ⟨⟩⟩, by rintro _ _ ⟨⟩⟩ ?_ rfl
      (List.mem_append_left _ (h.began i f p hi))
      (hstands.concat (by rintro ⟨_, _, _, _, ⟨⟩⟩) (by rintro ⟨_, _, ⟨⟩⟩))
    refine h.histories.concat rfl (fun _ => rfl) fun j record hj => Or.inl ?_
    obtain ⟨hp, rfl⟩ | hj := seen_update hj
    · rwa [hi]
    · exact hj
  | @write _ record drawn patch new hw =>
    obtain ⟨hafter, hnew, hnext⟩ := h.histories.write (by rw [hi]; rfl) hexec
    refine h.concat ⟨?_, by rintro _ ⟨_, _, ⟨⟩⟩, by rintro _ _ ⟨⟩⟩ (hnext _ fun j record' hj => ?_)
      rfl
      (List.mem_append_left _ (h.began i f _ hi))
      ⟨⟨_, List.mem_append_right _ List.mem_cons_self, _, _, _, _, rfl⟩, ?_⟩
    · rintro _ _ _ _ _ ⟨⟩
      exact ⟨fun e he => (hstands.1 e he).1, f, record, drawn, h.began i f _ hi, rfl, hafter, hnew,
        hstands.2, hw⟩
    · obtain ⟨hp, -⟩ | hj := seen_update hj
      · cases hp
      · exact hj
    · intro e he
      obtain he | he := List.mem_append.mp he
      · exact (hstands.1 e he).2
      · rw [List.mem_singleton.mp he]
        rintro ⟨_, _, ⟨⟩⟩
  | enter =>
    obtain ⟨e, he, hwrite⟩ := hstands.1
    exact h.writeless hi hexec trivial (by nofun) (fun _ => hstands)
      ⟨e, List.mem_append_left _ he, hwrite⟩
  | emailed ht =>
    refine h.writeless hi hexec trivial (by nofun) (by rintro ⟨_, _, ⟨⟩⟩) ⟨fun e he => ?_, _,
      List.mem_append_right _ List.mem_cons_self, _, _, _, rfl, ht⟩
    obtain he | he := List.mem_append.mp he
    · exact hstands.1 e he
    · rw [List.mem_singleton.mp he]
      exact ⟨by rintro ⟨_, _, _, _, ⟨⟩⟩, by rintro ⟨_, _, ⟨⟩⟩⟩

theorem Inv.drift (h : Inv ctx w₀ w log m) (d : Drift) : Inv ctx w₀ (drift d w) log m := by
  cases d <;> exact { h with histories := { h.histories with } }

theorem Inv.begin (h : Inv ctx w₀ w log m) (hi : m i = none) :
    Inv ctx w₀ w (log ++ [.began i f]) (Function.update m i (some (f, .before none []))) := by
  refine h.concat ⟨by rintro _ _ _ _ _ ⟨⟩, by rintro _ ⟨_, _, ⟨⟩⟩, by rintro _ _ ⟨⟩⟩ ?_ rfl
    (List.mem_append_right _ List.mem_cons_self) ⟨fun e he => ?_, nofun⟩
  · refine h.histories.concat rfl (fun _ => rfl) fun j record hj => Or.inl ?_
    obtain ⟨hp, -⟩ | hj := seen_update hj
    · cases hp
    · exact hj
  · obtain he | he := List.mem_append.mp he
    · exact ⟨fun hw => h.known i hi e he (writeBy_thread hw),
        fun hs => h.known i hi e he (sessionBy_thread hs)⟩
    · rw [List.mem_singleton.mp he]
      exact ⟨by rintro ⟨_, _, _, _, ⟨⟩⟩, by rintro ⟨_, _, ⟨⟩⟩⟩

theorem Inv.finish (h : Inv ctx w₀ w log m) (hi : m i = some (f, p))
    {a : Except Failure FactorAnswer}
    (hfinal : Final f a p) : Inv ctx w₀ w (log ++ [.ended i a]) m := by
  have hstands := h.stands i f p hi
  have hm : Function.update m i (some (f, p)) = m := hi ▸ Function.update_eq_self i m
  rw [← hm]
  refine h.concat ⟨by rintro _ _ _ _ _ ⟨⟩, by rintro _ ⟨_, _, ⟨⟩⟩, ?_⟩ ?_ rfl
    (List.mem_append_left _ (h.began i f p hi))
    (hstands.concat (by rintro ⟨_, _, _, _, ⟨⟩⟩) (by rintro ⟨_, _, ⟨⟩⟩))
  · rintro _ _ ⟨⟩
    refine ⟨f, h.began i f p hi, ?_⟩
    cases f with
    | confirm | recover =>
      obtain rfl : p = .opened := hfinal
      exact Or.inl hstands
    | stepUp =>
      obtain rfl | rfl : p = .wrote ∨ p = .emailed := hfinal
      · exact Or.inl hstands.1
      · exact Or.inr ⟨⟨_, _, _, _, _, rfl⟩, hstands.2⟩
    | enroll | activate | regenerate | disable =>
      obtain rfl : p = .wrote := hfinal
      exact Or.inl hstands.1
  · rw [hm]
    exact h.histories.concat rfl (fun _ => rfl) fun _ _ => Or.inl

theorem Inv.start (h : ∀ id record, get w.users id = some record → record.id = id) :
    Inv ctx w w [] fun _ => none where
  histories := Histories.start h
  tells := Tells.nil
  began _ _ _ h := nomatch h
  stands _ _ _ h := nomatch h
  known _ _ _ h := nomatch h

theorem keeps (ctx : Context) (w₀ : World) : (protocol ctx).Keeps (fun _ => True) (Inv ctx w₀) where
  drift h _ := h.drift _
  began h hi _ := h.begin hi
  called h hi _ hexec hstep := h.step hi hexec hstep
  ended h hi hfinal _ := h.finish hi hfinal

end Inv

/-! ## What a run leaves -/

/-- A log whose entries say what they do of those before them, each call beginning once. -/
structure Lawful (ctx : Context) (w : World) (log : FactorLog) : Prop where
  told : Tells (Told ctx w) log
  unique : ∀ i f g, .began i f ∈ log → .began i g ∈ log → f = g

/-- A user written, and the flow that wrote it. -/
def WroteBy (log : FactorLog) (id : Str) (f : FactorFlow) (e : FactorEntry) (new : UserRecord) :
    Prop :=
  written id e = some new ∧ .began e.thread f ∈ log

section Lawful

variable {ctx : Context} {w : World} {log l₁ l₂ : FactorLog} {e : FactorEntry} {f : FactorFlow}
  {id : Str} {new : UserRecord}

theorem Lawful.wroteBy (h : Lawful ctx w log) (he : e ∈ log) (hnew : written id e = some new) :
    ∃ f, WroteBy log id f e new := by
  obtain ⟨i, patch, v, rfl⟩ := written_eq_some hnew
  obtain ⟨l₁, l₂, rfl, htold⟩ := h.told.mem he
  obtain ⟨-, f, old, drawn, hf, -⟩ := htold.write i id patch v new rfl
  exact ⟨f, hnew, List.mem_append_left _ hf⟩

/-- **A write changes the factor alone**, of the record the writes before it left. -/
theorem Lawful.rewrites (h : Lawful ctx w log) (hlog : log = l₁ ++ e :: l₂)
    (hwrote : WroteBy log id f e new) :
    ∃ old factor drawn, recordAfter w id l₁ = some old ∧
      Rewrites ctx id drawn old.secondFactor f factor ∧
      (∀ n ∈ drawn, .called e.thread .draw n ∈ l₁) ∧
      new = { old with
        secondFactor := factor, version := old.version + 1, updatedAt := new.updatedAt } := by
  obtain ⟨hwritten, hbegan⟩ := hwrote
  obtain ⟨i, patch, v, rfl⟩ := written_eq_some hwritten
  obtain ⟨-, g, old, drawn, hg, rfl, hold, rfl, hdrawn,
      ⟨hactive, hfields, hlogins, havatar⟩, hpassword, hverified, factor,
      hfactor, hrewrites⟩ :=
    (h.told l₁ _ l₂ hlog).write i id patch v new rfl
  obtain rfl : g = f := h.unique i g f (hlog ▸ List.mem_append_left _ hg) hbegan
  refine ⟨old, factor, drawn, hold, hrewrites, hdrawn, ?_⟩
  simp only [applyPatch, hactive, hfields, hlogins, havatar, hpassword, hverified, hfactor,
    Option.getD_none, Option.getD_some]

/-- **A run is lawful**, and leaves each user as its writes do. -/
theorem lawful (ctx : Context) (h : ∀ id record, get w.users id = some record → record.id = id)
    (moves : List (Move Drift FactorFlow)) :
    Lawful ctx w ((factorService ctx).run w moves).log ∧
      ∀ id, get ((factorService ctx).run w moves).world.users id =
        recordAfter w id ((factorService ctx).run w moves).log := by
  obtain ⟨m, -, hinv⟩ := (keeps ctx w).run (Inv.start h) fun _ (_ : _ ∈ moves) => trivial
  have horderly := (factorService ctx).orderly w moves
  exact ⟨⟨hinv.tells, fun _ _ _ => horderly.unique⟩, hinv.histories.current⟩

end Lawful

end FactorWrites

end Janus.Auth
