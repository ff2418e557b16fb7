import Janus.Auth.Deletion

/-!
# Auth/Deleted — deleting a user is replayable

Where a deletion stands tells what it read and what it left (`Phase.Tells`), and what it left stays:
a store only ever loses what names the user (`Shrinks`).  One deletion at most took the record away,
and it alone sends the event; so of every interleaving of calls, with any of them failing anywhere
(`deleteUser_replayable`).
-/

namespace Janus.Auth.Deletion

open Js Insertion Calls Permissions

/-! ## What a phase tells -/

/-- Whether the record is known to be gone. -/
def Phase.gone : Phase → Bool
  | .cleaning .. | .telling .. | .told .. => true
  | .stamping found => !found
  | _ => false

/-- Whether it is this call that took it away. -/
def Phase.deleted : Phase → Bool
  | .cleaning b _ | .telling b _ | .told b _ => b
  | _ => false

/-- Whether it read a record of its own type. -/
def Phase.own : Phase → Bool
  | .stamping found => found
  | .deleting => true
  | p => p.deleted

/-- Whether the sessions are known to be deleted, the tokens, the tuples. -/
def Phase.clean (part : Part) : Phase → Bool
  | .cleaning _ .tokens => part = .sessions
  | .cleaning _ .tuples => part ≠ .tuples
  | .telling _ cleaned | .told _ cleaned => cleaned
  | _ => false

/-- No session, token or tuple names the user. -/
def World.Clean (w : World) (relations : Bool) (request : Request) : Part → Prop
  | .sessions => ∀ e ∈ w.sessions, e.2.userId ≠ request.id
  | .tokens => ∀ e ∈ w.tokens, e.2.userId ≠ request.id
  | .tuples => relations = true → ∀ e ∈ w.relations, ¬ e.2.Mentions ⟨request.type, request.id⟩

/-- **What a deletion knows**, of the stores it began on and of the stores now. -/
structure Phase.Tells (relations : Bool) (before w : World) (request : Request) (p : Phase) :
    Prop where
  gone : p.gone = true → get w.users request.id = none
  own : p.own = true → ∃ record, get before.users request.id = some record ∧
    record.type = request.type
  spared : p = .spared → ∃ record, get before.users request.id = some record ∧
    record.type ≠ request.type
  clean : ∀ part, p.clean part = true → w.Clean relations request part

/-- The stores only lose. -/
structure Shrinks (w w' : World) : Prop where
  users : ∀ id, get w.users id = none → get w'.users id = none
  sessions : w'.sessions ⊆ w.sessions
  tokens : w'.tokens ⊆ w.tokens
  relations : w'.relations ⊆ w.relations

theorem Phase.Tells.mono {relations : Bool} {before w w' : World} {request : Request} {p : Phase}
    (h : p.Tells relations before w request) (hw : Shrinks w w') :
    p.Tells relations before w' request where
  gone hp := hw.users _ (h.gone hp)
  own := h.own
  spared := h.spared
  clean part hp := by
    have hclean := h.clean part hp
    cases part with
    | sessions => exact fun e he => hclean e (hw.sessions he)
    | tokens => exact fun e he => hclean e (hw.tokens he)
    | tuples => exact fun hr e he => hclean hr e (hw.relations he)

theorem Shrinks.refl (w : World) : Shrinks w w :=
  ⟨fun _ h => h, List.Subset.refl _, List.Subset.refl _, List.Subset.refl _⟩

/-! ## What a step does -/

theorem stored_ok {α : Type} {w w' written : World} {answer a : α}
    (h : w.stored answer written = (.ok a, w')) : answer = a ∧ w' = written := by
  rw [World.stored] at h
  split at h
  · cases h
  · cases h
    exact ⟨rfl, rfl⟩

theorem stored_error {α : Type} {w w' written : World} {answer : α} {e : Failure}
    (h : w.stored answer written = (.error e, w')) : w' = w := by
  rw [World.stored] at h
  split at h <;> cases h
  rfl

/-- Without what names the user, of these types. -/
def without (id : Str) (types : List Str) (relations : MemoryRelations) : MemoryRelations :=
  relations.filter fun e => types.all fun type => !MemoryRelations.names e.2 ⟨type, id⟩

/-- **What one step of a deletion may write**, and where it leaves the deletion. -/
structure Moves (w w' : World) (request : Request) (p p' : Phase) : Prop where
  users : w'.users = w.users ∨ w'.users = delete w.users request.id ∧ p = .deleting ∧
    p' = .cleaning (get w.users request.id).isSome .sessions
  sessions : w'.sessions = w.sessions ∨ p.gone = true ∧
    w'.sessions = w.sessions.filter fun e => e.2.userId ≠ request.id
  tokens : w'.tokens = w.tokens ∨ p.gone = true ∧
    w'.tokens = w.tokens.filter fun e => e.2.userId ≠ request.id
  relations : w'.relations = w.relations ∨ p.gone = true ∧
    w'.relations = without request.id [request.type] w.relations
  deleted : p.deleted = true → p'.deleted = true
  fresh : p'.deleted = true → p.deleted = true ∨ p = .deleting ∧
    (get w.users request.id).isSome = true

theorem Moves.shrinks {w w' : World} {request : Request} {p p' : Phase}
    (h : Moves w w' request p p') : Shrinks w w' where
  users id hid := by
    obtain hu | ⟨hu, -⟩ := h.users
    · rwa [hu]
    · rw [hu, get_delete, hid]
      exact ite_self _
  sessions := by
    obtain hs | ⟨-, hs⟩ := h.sessions <;> rw [hs]
    · exact List.Subset.refl _
    · exact List.filter_subset_self _
  tokens := by
    obtain hs | ⟨-, hs⟩ := h.tokens <;> rw [hs]
    · exact List.Subset.refl _
    · exact List.filter_subset_self _
  relations := by
    obtain hs | ⟨-, hs⟩ := h.relations <;> rw [hs]
    · exact List.Subset.refl _
    · exact List.filter_subset_self _

variable {relations : Bool} {request : Request} {w w' : World} {p p' : Phase} {c : Call}
  {r : Answer c}

/-- A step that writes nothing. -/
theorem Moves.of_eq (hp : p.deleted = p'.deleted) : Moves w w request p p' :=
  ⟨Or.inl rfl, Or.inl rfl, Or.inl rfl, Or.inl rfl, fun h => hp ▸ h, fun h => Or.inl (hp ▸ h)⟩

theorem Step.moves (hstep : Step relations request p c r p') (hexec : exec c w = (r, w')) :
    Moves w w' request p p' := by
  cases hstep with
  | nobody | found | another =>
    obtain ⟨-, rfl⟩ := stored_ok hexec
    exact .of_eq rfl
  | unread | undeleted | sessionsLeft | tokensLeft | tuplesLeft =>
    obtain rfl := stored_error hexec
    exact .of_eq rfl
  | stamped | skipped | tell =>
    cases hexec
    exact .of_eq rfl
  | deleted =>
    obtain ⟨rfl, rfl⟩ := stored_ok hexec
    exact ⟨Or.inr ⟨rfl, rfl, rfl⟩, Or.inl rfl, Or.inl rfl, Or.inl rfl, nofun,
      fun h => Or.inr ⟨rfl, h⟩⟩
  | sessions =>
    obtain ⟨-, rfl⟩ := stored_ok hexec
    exact ⟨Or.inl rfl, Or.inr ⟨rfl, rfl⟩, Or.inl rfl, Or.inl rfl, fun h => h, Or.inl⟩
  | tokens =>
    obtain ⟨-, rfl⟩ := stored_ok hexec
    refine ⟨Or.inl rfl, Or.inl rfl, Or.inr ⟨rfl, rfl⟩, Or.inl rfl, ?_, ?_⟩ <;> split <;>
      simp [Phase.deleted]
  | tuples =>
    obtain ⟨-, rfl⟩ := stored_ok hexec
    refine ⟨Or.inl rfl, Or.inl rfl, Or.inl rfl, Or.inr ⟨rfl, ?_⟩, fun h => h, Or.inl⟩
    simp [without]

/-- **What a deletion knows, it knows of what its step left.** -/
theorem Step.tells {before : World} (hstep : Step relations request p c r p')
    (hexec : exec c w = (r, w'))
    (hbefore : ∀ record, get w.users request.id = some record →
      get before.users request.id = some record)
    (h : p.Tells relations before w request) : p'.Tells relations before w' request := by
  have hkept := h.mono (hstep.moves hexec).shrinks
  cases hstep with
  | nobody =>
    obtain ⟨hnone, rfl⟩ := stored_ok hexec
    exact ⟨fun _ => hnone, nofun, nofun, nofun⟩
  | found htype =>
    obtain ⟨hread, rfl⟩ := stored_ok hexec
    exact ⟨nofun, fun _ => ⟨_, hbefore _ hread, htype⟩, nofun, nofun⟩
  | another htype =>
    obtain ⟨hread, rfl⟩ := stored_ok hexec
    exact ⟨nofun, nofun, fun _ => ⟨_, hbefore _ hread, htype⟩, nofun⟩
  | unread | undeleted => exact ⟨nofun, nofun, nofun, nofun⟩
  | stamped => exact ⟨nofun, fun _ => hkept.own rfl, nofun, nofun⟩
  | skipped => exact ⟨fun _ => hkept.gone rfl, nofun, nofun, nofun⟩
  | deleted =>
    obtain ⟨-, rfl⟩ := stored_ok hexec
    refine ⟨fun _ => ?_, fun _ => hkept.own rfl, nofun, nofun⟩
    change get (delete _ _) _ = none
    rw [get_delete, if_pos rfl]
  | sessions =>
    obtain ⟨-, rfl⟩ := stored_ok hexec
    refine ⟨fun _ => hkept.gone rfl, hkept.own, nofun, fun part hpart => ?_⟩
    obtain rfl : part = .sessions := of_decide_eq_true hpart
    exact fun e he => of_decide_eq_true (List.mem_filter.mp he).2
  | tokens =>
    obtain ⟨-, rfl⟩ := stored_ok hexec
    have htokens : World.Clean { w with tokens := w.tokens.filter fun e => e.2.userId ≠ request.id }
        relations request .tokens := fun e he => of_decide_eq_true (List.mem_filter.mp he).2
    split
    case isTrue =>
      refine ⟨fun _ => hkept.gone rfl, hkept.own, nofun, fun part hpart => ?_⟩
      cases part with
      | sessions => exact hkept.clean .sessions rfl
      | tokens => exact htokens
      | tuples => cases hpart
    case isFalse hrelations =>
      refine ⟨fun _ => hkept.gone rfl, hkept.own, nofun, fun part _ => ?_⟩
      cases part with
      | sessions => exact hkept.clean .sessions rfl
      | tokens => exact htokens
      | tuples => exact fun h => absurd h hrelations
  | tuples =>
    obtain ⟨-, rfl⟩ := stored_ok hexec
    refine ⟨fun _ => hkept.gone rfl, hkept.own, nofun, fun part _ => ?_⟩
    cases part with
    | sessions => exact hkept.clean .sessions rfl
    | tokens => exact hkept.clean .tokens rfl
    | tuples => exact fun _ e he => by simpa [names_eq_false] using (List.mem_filter.mp he).2
  | sessionsLeft | tokensLeft | tuplesLeft =>
    exact ⟨fun _ => hkept.gone rfl, hkept.own, nofun, nofun⟩
  | tell => exact ⟨fun _ => hkept.gone rfl, hkept.own, nofun, hkept.clean⟩

theorem Phase.gone_of_deleted {p : Phase} (h : p.deleted = true) : p.gone = true := by
  cases p <;> first | rfl | cases h

/-! ## What a run keeps -/

/-- The events sent so far. -/
def sent {F : Type} (log : List (Entry Call Answer F Failure Bool)) : List (Str × Str) :=
  log.filterMap fun
    | .called _ (.emit id type _) _ => some (id, type)
    | _ => none

/-- **A step sends the event, once it may, or nothing.** -/
theorem Step.sends {F : Type} (hstep : Step relations request p c r p') :
    (∀ cleaned, p ≠ .told true cleaned) ∧
    ((∃ cleaned, p = .telling true cleaned ∧ p' = .told true cleaned ∧
      ∀ (log : List (Entry Call Answer F Failure Bool)) i,
        sent (log ++ [.called i c r]) = sent log ++ [(request.id, request.type)]) ∨
    (∀ cleaned, p' ≠ .told true cleaned) ∧
      ∀ (log : List (Entry Call Answer F Failure Bool)) i, sent (log ++ [.called i c r]) =
      sent log) := by
  cases hstep with
  | tell => exact ⟨nofun, Or.inl ⟨_, rfl, rfl, fun log i => List.filterMap_append⟩⟩
  | tokens =>
    refine ⟨nofun, Or.inr ⟨fun _ => ?_, fun log i => ?_⟩⟩
    · split <;> nofun
    · exact List.filterMap_append.trans (List.append_nil _)
  | _ => exact ⟨nofun, Or.inr ⟨nofun, fun log i => List.filterMap_append.trans (List.append_nil _)⟩⟩

theorem without_without (id type : Str) (types : List Str) (memory : MemoryRelations) :
    without id [type] (without id types memory) = without id (type :: types) memory := by
  simp [without, List.filter_filter]

variable (relations : Bool) (before : World) (id : Str)

/-- **What every run of deletions of one user keeps.** -/
structure Inv (w : World) (log : List (Entry Call Answer Request Failure Bool))
    (m : (protocol relations).Locals) : Prop where
  asked : ∀ i f p, m i = some (f, p) → f.id = id ∧ .began i f ∈ log
  began : ∀ i f, .began i f ∈ log → ∃ p, m i = some (f, p)
  tells : ∀ i f p, m i = some (f, p) → Phase.Tells relations before w f p
  ended : ∀ i r, .ended i r ∈ log → ∃ f p, m i = some (f, p) ∧ Final r p
  one : ∀ i j f g p q, m i = some (f, p) → m j = some (g, q) → Phase.deleted p = true →
    Phase.deleted q = true → i = j
  users : w.users = before.users ∨ w.users = delete before.users id ∧
    ((get before.users id).isSome → ∃ i f p, m i = some (f, p) ∧ Phase.deleted p = true)
  sessions : w.sessions = before.sessions ∨ get w.users id = none ∧
    w.sessions = before.sessions.filter fun e => e.2.userId ≠ id
  tokens : w.tokens = before.tokens ∨ get w.users id = none ∧
    w.tokens = before.tokens.filter fun e => e.2.userId ≠ id
  tuples : ∃ types, (∀ type ∈ types, get w.users id = none ∧ ∃ i, .began i ⟨type, id⟩ ∈ log) ∧
    w.relations = without id types before.relations
  event : (∃ i f c, m i = some (f, .told true c) ∧ sent log = [(id, f.type)]) ∨
    (∀ i f c, m i ≠ some (f, .told true c)) ∧ sent log = []

variable {relations before id}

section Kept

variable {log : List (Entry Call Answer Request Failure Bool)} {m : (protocol relations).Locals}

/-- The record read is the one the run began with. -/
theorem Inv.read (h : Inv relations before id w log m) {record : UserRecord}
    (hread : get w.users id = some record) : get before.users id = some record := by
  obtain hu | ⟨hu, -⟩ := h.users
  · rwa [← hu]
  · rw [hu, get_delete, if_pos rfl] at hread
    cases hread

/-- Somebody who took the record away still has, after a step. -/
theorem exists_deleted {i : ℕ} {f : Request} (hi : m i = some (f, p)) (hmoves : Moves w w' f p p')
    (h : ∃ i f p, m i = some (f, p) ∧ Phase.deleted p = true) :
    ∃ j g q, Function.update m i (some (f, p')) j = some (g, q) ∧ Phase.deleted q = true := by
  obtain ⟨j, g, q, hj, hq⟩ := h
  by_cases hji : j = i
  · subst hji
    cases hi.symm.trans hj
    exact ⟨j, f, p', Function.update_self .., hmoves.deleted hq⟩
  · exact ⟨j, g, q, (Function.update_of_ne hji ..).trans hj, hq⟩

/-- **A step keeps it.** -/
theorem Inv.called (h : Inv relations before id w log m) {i : ℕ} {f : Request} {p p' : Phase}
    {c : Call} {r : Answer c} (hi : m i = some (f, p)) (hnew : ∀ r', .ended i r' ∉ log)
    (hexec : exec c w = (r, w')) (hstep : Step relations f p c r p') :
    Inv relations before id w' (log ++ [.called i c r]) (Function.update m i (some (f, p'))) := by
  obtain ⟨rfl, hbegan⟩ := h.asked i f p hi
  have hmoves := hstep.moves hexec
  have hshrinks := hmoves.shrinks
  have hp := h.tells i f p hi
  have hp' := hstep.tells hexec (fun _ => h.read) hp
  have hgone : p.gone = true → get w'.users f.id = none := fun hgone =>
    hshrinks.users _ (hp.gone hgone)
  obtain ⟨hunsent, hsends⟩ := hstep.sends
  refine ⟨fun j g q hj => ?_, fun j g hj => ?_, fun j g q hj => ?_, fun j r' hj => ?_,
    fun j k g g' q q' hj hk hq hq' => ?_, ?_, ?_, ?_, ?_, ?_⟩
  · obtain ⟨rfl, heq⟩ | ⟨-, hj⟩ := update_eq_some.mp hj
    · cases heq
      exact ⟨rfl, List.mem_append_left _ hbegan⟩
    · exact (h.asked j g q hj).imp_right (List.mem_append_left _)
  · obtain ⟨q, hq⟩ := h.began j g (by simpa using hj)
    by_cases hji : j = i
    · subst hji
      cases hi.symm.trans hq
      exact ⟨p', Function.update_self ..⟩
    · exact ⟨q, (Function.update_of_ne hji ..).trans hq⟩
  · obtain ⟨rfl, heq⟩ | ⟨-, hj⟩ := update_eq_some.mp hj
    · cases heq
      exact hp'
    · exact (h.tells j g q hj).mono hshrinks
  · have hj : .ended j r' ∈ log := by simpa using hj
    obtain ⟨g, q, hq, hfinal⟩ := h.ended j r' hj
    have hji : j ≠ i := fun hji => hnew r' (hji ▸ hj)
    exact ⟨g, q, (Function.update_of_ne hji ..).trans hq, hfinal⟩
  · -- Two that took the record away: the later found it gone.
    have hfresh : ∀ {j g q}, m j = some (g, q) → Phase.deleted q = true →
      p'.deleted = true → j = i := by
      intro j g q hj hq hdeleted
      obtain hold | ⟨-, hthere⟩ := hmoves.fresh hdeleted
      · exact h.one _ _ _ _ _ _ hj hi hq hold
      · have habsent := (h.tells j g q hj).gone (Phase.gone_of_deleted hq)
        rw [(h.asked j g q hj).1] at habsent
        rw [habsent] at hthere
        cases hthere
    obtain ⟨hji, heq⟩ | ⟨-, hjm⟩ := update_eq_some.mp hj <;>
      obtain ⟨hki, heq'⟩ | ⟨-, hkm⟩ := update_eq_some.mp hk
    · exact hji.trans hki.symm
    · cases heq
      exact hji.trans (hfresh hkm hq' hq).symm
    · cases heq'
      exact (hfresh hjm hq hq').trans hki.symm
    · exact h.one _ _ _ _ _ _ hjm hkm hq hq'
  · obtain hu | ⟨hu, rfl, rfl⟩ := hmoves.users
    · rw [hu]
      exact h.users.imp_right (And.imp_right fun hsome hs => exists_deleted hi hmoves (hsome hs))
    · rw [hu]
      obtain hold | ⟨hold, hsome⟩ := h.users
      · rw [hold]
        exact Or.inr ⟨rfl, fun hs => ⟨i, f, _, Function.update_self .., hs⟩⟩
      · exact Or.inr ⟨by rw [hold]; simp [delete], fun hs => exists_deleted hi hmoves (hsome hs)⟩
  · obtain hs | ⟨hg, hs⟩ := hmoves.sessions
    · rw [hs]
      exact h.sessions.imp_right (And.imp_left (hshrinks.users _))
    · rw [hs]
      obtain hold | ⟨-, hold⟩ := h.sessions <;> rw [hold]
      · exact Or.inr ⟨hgone hg, rfl⟩
      · exact Or.inr ⟨hgone hg, by simp⟩
  · obtain hs | ⟨hg, hs⟩ := hmoves.tokens
    · rw [hs]
      exact h.tokens.imp_right (And.imp_left (hshrinks.users _))
    · rw [hs]
      obtain hold | ⟨-, hold⟩ := h.tokens <;> rw [hold]
      · exact Or.inr ⟨hgone hg, rfl⟩
      · exact Or.inr ⟨hgone hg, by simp⟩
  · obtain ⟨types, htypes, hold⟩ := h.tuples
    have hkept : ∀ type ∈ types, get w'.users f.id = none ∧
        ∃ j, .began j ⟨type, f.id⟩ ∈ log ++ [.called i c r] := fun type htype =>
      ⟨hshrinks.users _ (htypes type htype).1,
        (htypes type htype).2.imp fun _ => List.mem_append_left _⟩
    obtain ht | ⟨hg, ht⟩ := hmoves.relations
    · exact ⟨types, hkept, ht.trans hold⟩
    · refine ⟨f.type :: types, fun type htype => ?_, by rw [ht, hold, without_without]⟩
      obtain rfl | htype := List.mem_cons.mp htype
      · exact ⟨hgone hg, i, List.mem_append_left _ hbegan⟩
      · exact hkept type htype
  · obtain ⟨cleaned, rfl, rfl, hsent⟩ | ⟨hquiet, hsent⟩ := hsends
    · obtain ⟨j, g, cleaned', hj, -⟩ | ⟨-, hnone⟩ := h.event
      · cases h.one _ _ _ _ _ _ hj hi rfl rfl
        cases hi.symm.trans hj
      · exact Or.inl ⟨i, f, cleaned, Function.update_self .., by rw [hsent, hnone]; rfl⟩
    · obtain ⟨j, g, cleaned, hj, hold⟩ | ⟨hnobody, hnone⟩ := h.event
      · have hji : j ≠ i := by
          rintro rfl
          cases hi.symm.trans hj
          exact hunsent _ rfl
        exact Or.inl ⟨j, g, cleaned, (Function.update_of_ne hji ..).trans hj,
          (hsent log i).trans hold⟩
      · refine Or.inr ⟨fun j g cleaned hj => ?_, (hsent log i).trans hnone⟩
        obtain ⟨rfl, heq⟩ | ⟨-, hj⟩ := update_eq_some.mp hj
        · cases heq
          exact hquiet _ rfl
        · exact hnobody j g cleaned hj

theorem Inv.began_concat (h : Inv relations before id w log m) (hid : isId id = true) {i : ℕ}
    {f : Request} (hnone : m i = none) (hf : f.id = id) :
    Inv relations before id w (log ++ [.began i f]) (Function.update m i (some (f, start f))) := by
  have hstart : start f = .reading := if_pos (hf ▸ hid)
  have hne : ∀ {j g q}, m j = some (g, q) → j ≠ i := by
    rintro j g q hj rfl
    cases hnone.symm.trans hj
  have hold : ∀ {j g q}, m j = some (g, q) →
      Function.update m i (some (f, start f)) j = some (g, q) := fun hj =>
    (Function.update_of_ne (hne hj) ..).trans hj
  have hback : ∀ {j g q}, Function.update m i (some (f, start f)) j = some (g, q) →
      Phase.deleted q = true ∨ (∃ cleaned, q = .told true cleaned) → m j = some (g, q) := by
    intro j g q hj hq
    obtain ⟨rfl, heq⟩ | ⟨-, hj⟩ := update_eq_some.mp hj
    · cases heq
      rw [hstart] at hq
      obtain hq | ⟨_, hq⟩ := hq <;> cases hq
    · exact hj
  have hstays : (∃ j g q, m j = some (g, q) ∧ Phase.deleted q = true) →
      ∃ j g q, Function.update m i (some (f, start f)) j = some (g, q) ∧ Phase.deleted q = true :=
    fun ⟨j, g, q, hj, hq⟩ => ⟨j, g, q, hold hj, hq⟩
  have hsent : sent (log ++ [.began i f]) = sent log :=
    List.filterMap_append.trans (List.append_nil _)
  refine ⟨fun j g q hj => ?_, fun j g hj => ?_, fun j g q hj => ?_, fun j r' hj => ?_,
    fun j k g g' q q' hj hk hq hq' =>
      h.one _ _ _ _ _ _ (hback hj (Or.inl hq)) (hback hk (Or.inl hq')) hq hq',
    h.users.imp_right (And.imp_right fun hsome hs => hstays (hsome hs)), h.sessions,
      h.tokens, ?_, ?_⟩
  · obtain ⟨rfl, heq⟩ | ⟨-, hj⟩ := update_eq_some.mp hj
    · cases heq
      exact ⟨hf, List.mem_append_right _ (List.mem_singleton.mpr rfl)⟩
    · exact (h.asked j g q hj).imp_right (List.mem_append_left _)
  · obtain hj | hj := List.mem_append.mp hj
    · exact (h.began j g hj).imp fun _ => hold
    · cases List.mem_singleton.mp hj
      exact ⟨_, Function.update_self ..⟩
  · obtain ⟨rfl, heq⟩ | ⟨-, hj⟩ := update_eq_some.mp hj
    · cases heq
      rw [hstart]
      exact ⟨nofun, nofun, nofun, nofun⟩
    · exact h.tells j g q hj
  · obtain ⟨g, q, hq, hfinal⟩ := h.ended j r' (by simpa using hj)
    exact ⟨g, q, hold hq, hfinal⟩
  · obtain ⟨types, htypes, heq⟩ := h.tuples
    exact ⟨types, fun type htype => (htypes type htype).imp_right fun ⟨j, hj⟩ =>
      ⟨j, List.mem_append_left _ hj⟩, heq⟩
  · rw [hsent]
    exact h.event.imp (fun ⟨j, g, cleaned, hj, heq⟩ => ⟨j, g, cleaned, hold hj, heq⟩)
      fun ⟨hnobody, hnone⟩ => ⟨fun j g cleaned hj => hnobody j g cleaned (hback hj (Or.inr ⟨_, rfl⟩)),
        hnone⟩

theorem Inv.ended_concat (h : Inv relations before id w log m) {i : ℕ} {f : Request} {p : Phase}
    {r : Except Failure Bool} (hi : m i = some (f, p)) (hfinal : Final r p) :
    Inv relations before id w (log ++ [.ended i r]) m := by
  have hsent : sent (log ++ [.ended i r]) = sent log :=
    List.filterMap_append.trans (List.append_nil _)
  refine ⟨fun j g q hj => (h.asked j g q hj).imp_right (List.mem_append_left _),
    fun j g hj => h.began j g (by simpa using hj), h.tells, fun j r' hj => ?_, h.one, h.users,
    h.sessions, h.tokens, ?_, hsent ▸ h.event⟩
  · obtain hj | hj := List.mem_append.mp hj
    · exact h.ended j r' hj
    · cases List.mem_singleton.mp hj
      exact ⟨f, p, hi, hfinal⟩
  · obtain ⟨types, htypes, heq⟩ := h.tuples
    exact ⟨types, fun type htype => (htypes type htype).imp_right fun ⟨j, hj⟩ =>
      ⟨j, List.mem_append_left _ hj⟩, heq⟩

end Kept

/-- A run deletes one user. -/
def Of (id : Str) (mv : Move Drift Request) : Prop := ∀ f, mv.flow = some f → f.id = id

/-- **Every move keeps it.** -/
theorem keeps (hid : isId id = true) :
    (protocol relations).Keeps (Of id) (Inv relations before id) where
  drift {w log m e} h _ := by
    have htells : ∀ i f p, m i = some (f, p) → Phase.Tells relations before (drift e w) f p :=
      fun i f p hi => (h.tells i f p hi).mono (by
        cases e <;> exact ⟨fun _ h => h, List.Subset.refl _, List.Subset.refl _,
          List.Subset.refl _⟩)
    cases e <;> exact { h with tells := htells }
  began h hnone hok := h.began_concat hid hnone (hok _ rfl)
  called h hi hnew hexec hstep := h.called hi hnew hexec hstep
  ended h hi hfinal _ := h.ended_concat hi hfinal

theorem Inv.start (relations : Bool) (w : World) (id : Str) :
    Inv relations w id w [] fun _ => none where
  asked _ _ _ h := by cases h
  began _ _ h := absurd h List.not_mem_nil
  tells _ _ _ h := by cases h
  ended _ _ h := absurd h List.not_mem_nil
  one _ _ _ _ _ _ h := by cases h
  users := Or.inl rfl
  sessions := Or.inl rfl
  tokens := Or.inl rfl
  tuples := ⟨[], by simp, by simp [without]⟩
  event := Or.inr ⟨fun _ _ _ h => (by cases h), rfl⟩

/-! ## What a run leaves -/

/-- **Deleting a user is replayable**: what deletions of one user leave of the stores they began on.
-/
structure Replayable (relations : Bool) (before w : World)
    (log : List (Entry Call Answer Request Failure Bool)) (id : Str) : Prop where
  /-- one call at most answers `true`, and then the record is gone -/
  one : ∀ i j, .ended i (.ok true) ∈ log → .ended j (.ok true) ∈ log → i = j
  answered : ∀ i, .ended i (.ok true) ∈ log →
    (get before.users id).isSome = true ∧ get w.users id = none
  /-- the event is sent once at most, of a record that is gone… -/
  sent : sent log = [] ∨ ∃ record, get before.users id = some record ∧ get w.users id = none ∧
    Deletion.sent log = [(id, record.type)]
  /-- …and was once every call ended -/
  told : ∀ record, get before.users id = some record → get w.users id = none →
    (∀ i f, .began i f ∈ log → ∃ r, .ended i r ∈ log) → Deletion.sent log = [(id, record.type)]
  /-- a call of the user's own type that answers leaves nothing naming them -/
  clean : ∀ i f b, .began i f ∈ log → .ended i (.ok b) ∈ log →
    (∀ record, get before.users id = some record → record.type = f.type) →
    get w.users id = none ∧ (∀ e ∈ w.sessions, e.2.userId ≠ id) ∧
      (∀ e ∈ w.tokens, e.2.userId ≠ id) ∧
      (relations = true → ∀ e ∈ w.relations, ¬ e.2.Mentions ⟨f.type, id⟩)
  /-- while the user is stored nothing is touched… -/
  spared : (get w.users id).isSome = true → w.users = before.users ∧ w.sessions = before.sessions ∧
    w.tokens = before.tokens ∧ w.relations = before.relations
  /-- …as they are when only other types' APIs were asked, which then answer nobody -/
  another : ∀ record, get before.users id = some record →
    (∀ i f, .began i f ∈ log → f.type ≠ record.type) →
    get w.users id = some record ∧ ∀ i b, .ended i (.ok b) ∈ log → b = false
  /-- nothing of anybody else is touched -/
  others : (∀ other, other ≠ id → get w.users other = get before.users other) ∧
    (∀ e, e.2.userId ≠ id → (e ∈ w.sessions ↔ e ∈ before.sessions)) ∧
    (∀ e, e.2.userId ≠ id → (e ∈ w.tokens ↔ e ∈ before.tokens)) ∧
    ∀ e, (∀ i f, .began i f ∈ log → ¬ e.2.Mentions ⟨f.type, id⟩) →
      (e ∈ w.relations ↔ e ∈ before.relations)

section Leaves

variable {log : List (Entry Call Answer Request Failure Bool)} {m : (protocol relations).Locals}

/-- Who ended spared the user, failed before it took anything away, or is past its cleanup. -/
theorem final_cases {r : Except Failure Bool} {p : Phase} (h : Final r p) :
    p = .spared ∧ r = .ok false ∨ p = .failed ∧ (∃ e, r = .error e) ∨
      ∃ deleted cleaned, (p = .told deleted cleaned ∨
      p = .telling false cleaned ∧ deleted = false) ∧
        if cleaned then r = .ok deleted else ∃ e, r = .error e := by
  cases p with
  | spared => exact Or.inl ⟨rfl, h⟩
  | failed => exact Or.inr (Or.inl ⟨rfl, h⟩)
  | telling deleted cleaned =>
    cases deleted with
    | true => exact h.elim
    | false => exact Or.inr (Or.inr ⟨false, cleaned, Or.inr ⟨rfl, rfl⟩, by cases cleaned <;> exact h⟩)
  | told deleted cleaned =>
    exact Or.inr (Or.inr ⟨deleted, cleaned, Or.inl rfl, by
      cases deleted <;> cases cleaned <;> exact h⟩)
  | reading | stamping | deleting | cleaning => exact h.elim

/-- Who answered `true` took the record away. -/
theorem deleted_of_final {p : Phase} (h : Final (.ok true) p) : p.deleted = true := by
  obtain ⟨-, hr⟩ | ⟨-, _, hr⟩ | ⟨deleted, cleaned, hp, hr⟩ := final_cases h
  · cases hr
  · cases hr
  · cases cleaned with
    | false => exact absurd hr (by simp)
    | true =>
      cases hr
      exact hp.elim (· ▸ rfl) fun hp => nomatch hp.2

/-- Who took it away told of it before they ended. -/
theorem told_of_final {r : Except Failure Bool} {p : Phase} (h : Final r p)
    (hp : p.deleted = true) :
    ∃ cleaned, p = .told true cleaned := by
  obtain ⟨rfl, -⟩ | ⟨rfl, -⟩ | ⟨deleted, cleaned, rfl | ⟨rfl, -⟩, -⟩ := final_cases h
  · cases hp
  · cases hp
  · obtain rfl : deleted = true := hp
    exact ⟨cleaned, rfl⟩
  · cases hp

/-- Who answered spared the user, or cleaned up. -/
theorem clean_of_final {b : Bool} {p : Phase} (h : Final (.ok b) p) :
    p = .spared ∨ p.gone = true ∧ ∀ part, p.clean part = true := by
  obtain ⟨rfl, -⟩ | ⟨-, _, hr⟩ | ⟨deleted, cleaned, hp, hr⟩ := final_cases h
  · exact Or.inl rfl
  · cases hr
  · cases cleaned with
    | false => exact absurd hr (by simp)
    | true => exact Or.inr (by obtain rfl | ⟨rfl, -⟩ := hp <;> exact ⟨rfl, fun _ => rfl⟩)

/-- The record of somebody who took it away. -/
theorem Inv.own (h : Inv relations before id w log m) {i : ℕ} {f : Request} {p : Phase}
    (hi : m i = some (f, p)) (hp : p.deleted = true) :
    (∃ record, get before.users id = some record ∧ record.type = f.type) ∧
      get w.users id = none := by
  obtain ⟨rfl, -⟩ := h.asked i f p hi
  have htells := h.tells i f p hi
  exact ⟨htells.own (by cases p <;> first | exact hp | rfl | cases hp),
    htells.gone (Phase.gone_of_deleted hp)⟩

theorem Inv.another (h : Inv relations before id w log m) {record : UserRecord}
    (hrecord : get before.users id = some record)
    (hother : ∀ i f, .began i f ∈ log → f.type ≠ record.type) :
    get w.users id = some record ∧ ∀ i b, .ended i (.ok b) ∈ log → b = false := by
  have hnobody : ∀ i f p, m i = some (f, p) → Phase.deleted p = false := by
    intro i f p hi
    by_contra hp
    obtain ⟨⟨own, hown, htype⟩, -⟩ := h.own hi (by simpa using hp)
    rw [hrecord] at hown
    cases hown
    exact hother i f (h.asked i f p hi).2 htype.symm
  refine ⟨?_, fun i b hended => ?_⟩
  · obtain hu | ⟨-, hsome⟩ := h.users
    · rw [hu, hrecord]
    · obtain ⟨i, f, p, hi, hp⟩ := hsome (by rw [hrecord]; rfl)
      rw [hnobody i f p hi] at hp
      cases hp
  · obtain ⟨f, p, hi, hfinal⟩ := h.ended i _ hended
    cases b with
    | false => rfl
    | true =>
      have hp := deleted_of_final hfinal
      rw [hnobody i f p hi] at hp
      cases hp

theorem Inv.replayable (h : Inv relations before id w log m) :
    Replayable relations before w log id where
  one i j hi hj := by
    obtain ⟨f, p, hi, hp⟩ := h.ended i _ hi
    obtain ⟨g, q, hj, hq⟩ := h.ended j _ hj
    exact h.one _ _ _ _ _ _ hi hj (deleted_of_final hp) (deleted_of_final hq)
  answered i hi := by
    obtain ⟨f, p, hi, hp⟩ := h.ended i _ hi
    obtain ⟨⟨record, hrecord, -⟩, hgone⟩ := h.own hi (deleted_of_final hp)
    exact ⟨by rw [hrecord]; rfl, hgone⟩
  sent := by
    obtain ⟨i, f, cleaned, hi, hsent⟩ | ⟨-, hnone⟩ := h.event
    · obtain ⟨⟨record, hrecord, htype⟩, hgone⟩ := h.own hi rfl
      exact Or.inr ⟨record, hrecord, hgone, by rw [hsent, htype]⟩
    · exact Or.inl hnone
  told record hrecord hgone hall := by
    obtain hu | ⟨-, hsome⟩ := h.users
    · rw [hu, hrecord] at hgone
      cases hgone
    obtain ⟨i, f, p, hi, hp⟩ := hsome (by rw [hrecord]; rfl)
    obtain ⟨r, hr⟩ := hall i f (h.asked i f p hi).2
    obtain ⟨f', p', hi', hfinal⟩ := h.ended i r hr
    cases hi.symm.trans hi'
    obtain ⟨cleaned, rfl⟩ := told_of_final hfinal hp
    obtain ⟨⟨own, hown, htype⟩, -⟩ := h.own hi rfl
    rw [hrecord] at hown
    cases hown
    obtain ⟨j, g, cleaned', hj, hsent⟩ | ⟨hnobody, -⟩ := h.event
    · cases h.one _ _ _ _ _ _ hi hj rfl rfl
      cases hi.symm.trans hj
      rw [hsent, htype]
    · exact absurd hi (hnobody i f cleaned)
  clean i f b hbegan hended htype := by
    obtain ⟨p, hi⟩ := h.began i f hbegan
    obtain ⟨f', p', hi', hfinal⟩ := h.ended i _ hended
    cases hi.symm.trans hi'
    obtain ⟨rfl, -⟩ := h.asked i f p hi
    have htells := h.tells i f p hi
    obtain rfl | ⟨hgone, hclean⟩ := clean_of_final hfinal
    · obtain ⟨record, hrecord, hne⟩ := htells.spared rfl
      exact absurd (htype record hrecord) hne
    · exact ⟨htells.gone hgone, htells.clean .sessions (hclean _), htells.clean .tokens (hclean _),
        htells.clean .tuples (hclean _)⟩
  spared hsome := by
    have hthere : get w.users id ≠ none := fun hnone => by rw [hnone] at hsome; cases hsome
    refine ⟨?_, ?_, ?_, ?_⟩
    · obtain hu | ⟨hu, -⟩ := h.users
      · exact hu
      · rw [hu, get_delete, if_pos rfl] at hthere
        exact absurd rfl hthere
    · exact h.sessions.resolve_right fun hs => hthere hs.1
    · exact h.tokens.resolve_right fun hs => hthere hs.1
    · obtain ⟨types, htypes, heq⟩ := h.tuples
      have hnil : types = [] := List.eq_nil_iff_forall_not_mem.mpr fun type htype =>
        hthere (htypes type htype).1
      rw [heq, hnil]
      simp [without]
  another _ hrecord hother := h.another hrecord hother
  others := by
    refine ⟨fun other hother => ?_, fun e he => ?_, fun e he => ?_, fun e he => ?_⟩
    · obtain hu | ⟨hu, -⟩ := h.users <;> rw [hu]
      rw [get_delete, if_neg (Ne.symm hother)]
    · obtain hs | ⟨-, hs⟩ := h.sessions <;> rw [hs]
      rw [List.mem_filter]
      exact and_iff_left (decide_eq_true he)
    · obtain hs | ⟨-, hs⟩ := h.tokens <;> rw [hs]
      rw [List.mem_filter]
      exact and_iff_left (decide_eq_true he)
    · obtain ⟨types, htypes, heq⟩ := h.tuples
      rw [heq, without, List.mem_filter]
      refine and_iff_left (List.all_eq_true.mpr fun type htype => ?_)
      obtain ⟨-, i, hi⟩ := htypes type htype
      rw [Bool.not_eq_true', names_eq_false]
      exact he i _ hi

end Leaves

/-- **Deleting a user is replayable.** Whatever the interleaving of deletions of one user, with
whichever calls failing and however often repeated: one answers `true` at most; the event is sent
once if the stored record was deleted, and never otherwise; a call of the user's own type that
answers leaves no record, session, token or tuple naming them; and nothing is touched of a user
still stored, by another type's API in particular, nor of anybody else. -/
theorem deleteUser_replayable (relations : Bool) (w : World) (id : Str) (hid : isId id = true)
    (moves : List (Move Drift Request)) (hmoves : ∀ mv ∈ moves, ∀ f, mv.flow = some f → f.id = id) :
    Replayable relations w ((service relations).run w moves).world
      ((service relations).run w moves).log id := by
  obtain ⟨m, -, hinv⟩ := (keeps hid).run (Inv.start relations w id) hmoves
  exact hinv.replayable

/-! ## A deletion interrupted -/

def ada : Str := js "018f0000-0000-7000-8000-000000000001"

/-- Ada of the staff, signed in. -/
def clinicBefore : World where
  users := [(ada, {
    id := ada
    type := js "staff"
    active := true
    fields := []
    logins := []
    password := none
    secondFactor := none
    emailVerifiedAt := none
    version := 1
    updatedAt := 0 })]
  sessions := [(js "s1", {
    id := js "s1"
    tokenHash := js "h1"
    userId := ada
    authenticatedAt := 0
    expiresAt := 9
    revokedAt := none
    createdAt := 0 })]
  tokens := []
  relations := []
  clock := 1
  outage := none

/-- The staff's API deletes her, and the session store fails. -/
def interrupted : List (Move Drift Request) := [.begin ⟨js "staff", ada⟩, .step 0, .step 0, .step 0,
  .drift (.outage (some (.janus .storeFailed [] {}))), .step 0, .step 0, .drift (.outage none)]

/-- The patients' API is asked to delete her. -/
def askedOfPatients : List (Move Drift Request) :=
  [.begin ⟨js "patient", ada⟩, .step 1, .step 1, .step 1]

theorem deleteUser_replayable_ada :
    Replayable true clinicBefore
      ((service true).run clinicBefore (interrupted ++ askedOfPatients)).world
      ((service true).run clinicBefore (interrupted ++ askedOfPatients)).log ada :=
  deleteUser_replayable true clinicBefore ada (by decide) _
    (by simp [interrupted, askedOfPatients, Move.flow])

/-- **Another type's API finishes a deletion that was interrupted**: the record of the staff gone,
the patients' API finds nobody, and deletes the session that was left. -/
theorem deleteUser_of_patients :
    ((service true).run clinicBefore interrupted).world.sessions = clinicBefore.sessions ∧
    ((service true).run clinicBefore (interrupted ++ askedOfPatients)).world.sessions = [] ∧
    ((service true).run clinicBefore (interrupted ++ askedOfPatients)).log.getLast? =
      some (.called 1 (.deleteUserSessions ada) (.ok 1)) :=
  ⟨rfl, rfl, rfl⟩

end Janus.Auth.Deletion
