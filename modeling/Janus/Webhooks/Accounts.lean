import Janus.Webhooks.Closing

/-!
# Webhooks/Accounts — the outcome of each delivery, while it waits and once it left

A delivery held has no outcome, but for one reported whose removal is to come; a delivery gone has
one.
-/

namespace Janus.Webhooks

open Js Insertion

/-! ## Told -/

/-- A delivery of this id was reported, and is to be removed. -/
def Told (flights : List Flight) (id : Str) : Prop :=
  ∃ flight ∈ flights, flight.claimed.id = id ∧ flight.stage = .reported

theorem told_middle {l₁ l₂ : List Flight} {flight : Flight} {id : Str} :
    Told (l₁ ++ flight :: l₂) id ↔
      flight.claimed.id = id ∧ flight.stage = .reported ∨ Told (l₁ ++ l₂) id := by
  simp only [Told, List.mem_append, List.mem_cons]
  grind

theorem told_append_of_ne {flights started : List Flight}
    (h : ∀ flight ∈ started, flight.stage ≠ .reported)
    (id : Str) : Told (flights ++ started) id ↔ Told flights id := by
  simp only [Told, List.mem_append]
  grind

/-! ## The accounts -/

/-- What was claimed and is not settled: read by nobody yet, or under way. -/
def underWay (batch : List QueuedDelivery) (flights : List Flight) : List QueuedDelivery :=
  batch ++ flights.map (·.claimed)

/-- A delivery whose outcome is to come: held, and not reported. -/
def Open (w : Workers) (id : Str) (round : ℕ) : Prop :=
  round = w.round id ∧ (w.queue.find id).isSome ∧ ¬ Told w.flights id

/-- **The accounts**: who is under way holds its lease, and a delivery has one outcome, or is open.
-/
structure Accounted (w : Workers) (batch : List QueuedDelivery) (outcomes : List (Str × ℕ)) :
    Prop where
  nodup : ((underWay batch w.flights).map (·.id)).Nodup
  current : ∀ d ∈ underWay batch w.flights, Current w.queue d.id d.lease
  round : ∀ flight ∈ w.flights, flight.round = w.round flight.claimed.id
  fresh : ∀ id round, w.round id < round → (id, round) ∉ outcomes
  waits : ∀ id round, Open w id round → (id, round) ∉ outcomes
  settled : ∀ id round, 0 < round → round ≤ w.round id → ¬ Open w id round →
    outcomes.count (id, round) = 1

theorem Accounted.start : Accounted .start [] [] where
  nodup := List.nodup_nil
  current _ h := absurd h List.not_mem_nil
  round _ h := absurd h List.not_mem_nil
  fresh _ _ _ := List.not_mem_nil
  waits _ _ _ := List.not_mem_nil
  settled id round hpos hle _ := absurd (hpos.trans_le hle) (by simp [Workers.round, Workers.start])

variable {w w' : Workers} {batch batch' : List QueuedDelivery} {outcomes outcomes' : List (Str × ℕ)}

/-- One outcome at most is new, and it closes what it is of. -/
theorem Accounted.step (h : Accounted w batch outcomes) (new : List (Str × ℕ))
    (hstored : w'.stored = w.stored) (hnew : new = [] ∨
    ∃ id round, new = [(id, round)] ∧ Open w id round)
    (hopen : ∀ id round, Open w' id round ↔ Open w id round ∧ (id, round) ∉ new)
    (houtcomes : outcomes'.Perm (outcomes ++ new))
    (hnodup : ((underWay batch' w'.flights).map (·.id)).Nodup)
    (hcurrent : ∀ d ∈ underWay batch' w'.flights, Current w'.queue d.id d.lease)
    (hround : ∀ flight ∈ w'.flights, flight.round = w.round flight.claimed.id) :
    Accounted w' batch' outcomes' := by
  have hsame : ∀ id, w'.round id = w.round id := fun id => congrArg (List.count id) hstored
  have hof : ∀ {e}, e ∈ new → Open w e.1 e.2 := by
    rintro e he
    rcases hnew with rfl | ⟨id, round, rfl, hone⟩
    · exact absurd he List.not_mem_nil
    · rwa [List.mem_singleton.mp he]
  refine ⟨hnodup, hcurrent, fun flight hflight => ?_, fun id round hlt => ?_,
    fun id round hopen' => ?_,
    fun id round hpos hle hopen' => ?_⟩
  · rw [hsame]
    exact hround flight hflight
  · rw [hsame] at hlt
    rw [houtcomes.mem_iff, List.mem_append, not_or]
    exact ⟨h.fresh id round hlt, fun hmem => hlt.ne' (hof hmem).1⟩
  · obtain ⟨hwas, hnot⟩ := (hopen id round).mp hopen'
    rw [houtcomes.mem_iff, List.mem_append, not_or]
    exact ⟨h.waits id round hwas, hnot⟩
  · rw [hsame] at hle
    rw [houtcomes.count_eq, List.count_append]
    by_cases hmem : (id, round) ∈ new
    · -- it was open, and has its first outcome now
      rw [List.count_eq_zero.mpr (h.waits id round (hof hmem))]
      rcases hnew with rfl | ⟨id', round', rfl, -⟩
      · exact absurd hmem List.not_mem_nil
      · rw [List.mem_singleton.mp hmem, List.count_singleton_self]
    · have hwas : ¬ Open w id round := fun hwas => hopen' ((hopen id round).mpr ⟨hwas, hmem⟩)
      rw [h.settled id round hpos hle hwas, List.count_eq_zero.mpr hmem]

/-! ## One attempt at a time -/

section Flight

variable {i : ℕ} {flight : Flight} {stage : Stage} {queue : Queue}

/-- What an attempt takes part in is told apart by its id. -/
theorem Accounted.not_told (h : Accounted w batch outcomes) {l₁ l₂ : List Flight}
    (hl : w.flights = l₁ ++ flight :: l₂) : ¬ Told (l₁ ++ l₂) flight.claimed.id := by
  rintro ⟨flight', hmem, hid, -⟩
  have hnodup := h.nodup.sublist ((List.sublist_append_right _ _).map _)
  rw [hl, List.map_append, List.map_cons, List.map_append, List.map_cons,
    List.perm_middle.nodup_iff, List.nodup_cons, ← List.map_append, ← List.map_append] at hnodup
  exact hnodup.1 (List.mem_map.mpr ⟨_, List.mem_map_of_mem hmem, hid⟩)

/-- What is held stays held, and under its lease. -/
structure KeepsHeld (q q' : Queue) : Prop where
  isSome : ∀ id, (q'.find id).isSome ↔ (q.find id).isSome
  current : ∀ id lease, Current q id lease → Current q' id lease

theorem KeepsHeld.refl (q : Queue) : KeepsHeld q q := ⟨fun _ => Iff.rfl, fun _ _ h => h⟩

/-- An attempt at another stage: a report is its outcome. -/
theorem Accounted.moved (h : Accounted w batch outcomes) (hi : w.flights[i]? = some flight)
    (hstage : flight.stage ≠ .reported) (hqueue : KeepsHeld w.queue queue)
    (houtcomes : outcomes'.Perm
      (outcomes ++ if stage = .reported then [(flight.claimed.id, flight.round)] else [])) :
    Accounted { w.moved i flight stage with queue := queue } batch outcomes' := by
  obtain ⟨l₁, l₂, hl, hset, -⟩ := split_at hi
  have hflights : (w.moved i flight stage).flights = l₁ ++ { flight with stage := stage } :: l₂ :=
    hset _
  have hunder : underWay batch (w.moved i flight stage).flights = underWay batch w.flights := by
    rw [underWay, hflights, underWay, hl, List.map_append, List.map_append, List.map_cons,
      List.map_cons]
  have hround : flight.round = w.round flight.claimed.id :=
    h.round flight (hl ▸ List.mem_append_right _ List.mem_cons_self)
  have hnot := h.not_told hl
  have hheld : (w.queue.find flight.claimed.id).isSome := by
    obtain ⟨one, hone, -⟩ := h.current flight.claimed
      (List.mem_append_right _ (List.mem_map_of_mem (hl ▸ List.mem_append_right _ List.mem_cons_self)))
    rw [hone, Option.isSome_some]
  refine h.step _ rfl ?_ (fun id round => ?_) houtcomes ?_ ?_ fun flight' hmem => ?_
  · split
    · refine Or.inr ⟨_, _, rfl, hround, hheld, ?_⟩
      rw [hl, told_middle]
      simp [hstage, hnot]
    · exact Or.inl rfl
  · change round = w.round id ∧ (queue.find id).isSome ∧
      ¬ Told (w.moved i flight stage).flights id ↔ _
    rw [hqueue.isSome, Open, hflights, hl, told_middle, told_middle]
    split <;> grind
  · exact hunder ▸ h.nodup
  · intro d hd
    exact hqueue.current _ _ (h.current d (hunder ▸ hd))
  · have hmem' : flight' ∈ l₁ ++ { flight with stage := stage } :: l₂ := hflights ▸ hmem
    rcases List.mem_append.mp hmem' with hmem' | hmem'
    · exact h.round flight' (hl ▸ List.mem_append_left _ hmem')
    · rcases List.mem_cons.mp hmem' with rfl | hmem'
      · exact hround
      · exact h.round flight' (hl ▸ List.mem_append_right _ (List.mem_cons_of_mem _ hmem'))

/-- An attempt that ended: its delivery waits, was removed unreported, or was reported before. -/
theorem Accounted.landed (h : Accounted w batch outcomes) (hi : w.flights[i]? = some flight)
    (hothers : ∀ id, id ≠ flight.claimed.id → queue.find id = w.queue.find id)
    (hstage : (queue.find flight.claimed.id).isSome → flight.stage ≠ .reported)
    (houtcomes : outcomes'.Perm (outcomes ++
      if (queue.find flight.claimed.id).isSome ∨ flight.stage = .reported then []
      else [(flight.claimed.id, flight.round)])) :
    Accounted (w.landed i queue) batch outcomes' := by
  obtain ⟨l₁, l₂, hl, -, herase⟩ := split_at hi
  have hmem : flight ∈ w.flights := hl ▸ List.mem_append_right _ List.mem_cons_self
  have hround := h.round flight hmem
  have hnot := h.not_told hl
  have hheld : (w.queue.find flight.claimed.id).isSome := by
    obtain ⟨one, hone, -⟩ := h.current flight.claimed
      (List.mem_append_right _ (List.mem_map_of_mem hmem))
    rw [hone, Option.isSome_some]
  have hunder : (underWay batch w.flights).Perm (flight.claimed :: underWay batch (l₁ ++ l₂)) := by
    rw [underWay, underWay, hl, List.map_append, List.map_append, List.map_cons,
      ← List.append_assoc,
      ← List.append_assoc]
    exact List.perm_middle
  have hnodup := ((hunder.map (·.id)).nodup_iff.mp h.nodup)
  rw [List.map_cons, List.nodup_cons] at hnodup
  refine h.step _ rfl ?_ (fun id round => ?_) houtcomes ?_ ?_ fun flight' hmem' => ?_
  · split
    case isTrue => exact Or.inl rfl
    case isFalse hgone =>
      refine Or.inr ⟨_, _, rfl, hround, hheld, ?_⟩
      rw [hl, told_middle]
      simp_all
  · change round = w.round id ∧ (queue.find id).isSome ∧ ¬ Told (w.flights.eraseIdx i) id ↔ _
    rw [Open, herase, hl, told_middle]
    by_cases hid : id = flight.claimed.id
    · subst hid
      split <;> grind
    · rw [hothers id hid]
      split <;> grind
  · change ((underWay batch (w.flights.eraseIdx i)).map (·.id)).Nodup
    exact herase ▸ hnodup.2
  · intro d hd
    have hd' : d ∈ underWay batch (l₁ ++ l₂) := herase ▸ hd
    obtain ⟨one, hone, hlease⟩ := h.current d (hunder.mem_iff.mpr (List.mem_cons_of_mem _ hd'))
    refine ⟨one, (hothers d.id fun hid => ?_).trans hone, hlease⟩
    exact hnodup.1 (hid ▸ List.mem_map_of_mem hd')
  · exact h.round flight' (List.mem_of_mem_eraseIdx hmem')

end Flight

/-! ## Claims -/

section Claims

variable {uuid : ℕ → Str} {at_ leaseUntil : Time} {answered : List QueuedDelivery} {queue : Queue}

theorem Claims.isSome {q : Queue} (h : Claims uuid at_ leaseUntil q answered queue) (id : Str) :
    (queue.find id).isSome ↔ (q.find id).isSome := by
  by_cases hd : ∃ d ∈ answered, d.id = id
  · obtain ⟨d, hd, rfl⟩ := hd
    obtain ⟨one, hone, -, hclaimed, -⟩ := h.taken d hd
    rw [hone, hclaimed, Option.isSome_some, Option.isSome_some]
  · rw [h.kept id fun d hmem heq => hd ⟨d, hmem, heq⟩]

/-- A claim that takes nothing under way puts what it took there. -/
theorem Accounted.claimed (h : Accounted w [] outcomes)
    (hclaims : Claims uuid at_ leaseUntil w.queue answered queue)
    (hother : ∀ d ∈ answered, ∀ flight ∈ w.flights, flight.claimed.id ≠ d.id) :
    Accounted { w with queue := queue } answered outcomes := by
  refine h.step [] rfl (Or.inl rfl) (fun id round => ?_) (by rw [List.append_nil]) ?_
    (fun d hd => ?_)
    h.round
  · rw [and_iff_left List.not_mem_nil]
    exact and_congr Iff.rfl (and_congr (hclaims.isSome id) Iff.rfl)
  · rw [underWay, List.map_append, List.nodup_append]
    refine ⟨hclaims.nodup, h.nodup, fun a ha b hb hab => ?_⟩
    obtain ⟨d, hd, rfl⟩ := List.mem_map.mp ha
    rw [List.map_map] at hb
    obtain ⟨flight, hflight, rfl⟩ := List.mem_map.mp hb
    exact hother d hd flight hflight hab.symm
  · rcases List.mem_append.mp hd with hd | hd
    · obtain ⟨one, -, -, hone, -⟩ := hclaims.taken d hd
      exact ⟨_, hone, rfl⟩
    · obtain ⟨one, hone, hlease⟩ := h.current d hd
      obtain ⟨flight, hflight, rfl⟩ := List.mem_map.mp hd
      refine ⟨one, (hclaims.kept _ fun d' hd' heq => ?_).trans hone, hlease⟩
      exact hother d' hd' flight hflight heq.symm

/-- …and what was read of it is under way still. -/
theorem Accounted.started (h : Accounted w batch outcomes) {stage : QueuedDelivery → Stage}
    (hstage : ∀ d, stage d ≠ .reported) : Accounted (w.started stage (batch, w.queue))
    [] outcomes := by
  have hunder : underWay [] (w.started stage (batch, w.queue)).flights =
      w.flights.map (·.claimed) ++ batch := by
    rw [underWay, List.nil_append, Workers.started, List.map_append, List.map_map]
    exact congrArg _ (List.map_id batch)
  have hperm : (underWay [] (w.started stage (batch, w.queue)).flights).Perm
    (underWay batch w.flights) :=
    hunder ▸ List.perm_append_comm
  refine h.step [] rfl (Or.inl rfl) (fun id round => ?_) (by rw [List.append_nil]) ?_
    (fun d hd => ?_)
    fun flight hflight => ?_
  · rw [and_iff_left List.not_mem_nil]
    refine and_congr Iff.rfl
      (and_congr Iff.rfl (not_congr (told_append_of_ne (fun flight hflight => ?_) id)))
    obtain ⟨d, -, rfl⟩ := List.mem_map.mp hflight
    exact hstage d
  · exact (hperm.map (·.id)).nodup_iff.mpr h.nodup
  · exact h.current d (hperm.mem_iff.mp hd)
  · rcases List.mem_append.mp hflight with hflight | hflight
    · exact h.round flight hflight
    · obtain ⟨d, -, rfl⟩ := List.mem_map.mp hflight
      rfl

end Claims

/-! ## Inserts -/

theorem find_insertDeliveries_of_some {q : Queue} {event : UserEvent} {keys : List Str}
    {dueAt : Time}
    {id : Str} {one : Held} (h : q.find id = some one) :
    (insertDeliveries q event keys dueAt).2.find id = some one := find_insertEach_of_some h

/-- An id is inserted once more when it is held after, and was not before. -/
theorem round_insert (uuid : ℕ → Str) (settings : SenderSettings) (w : Workers) (event : UserEvent)
    (keys : List Str) (dueAt : Time) (id : Str) :
    ((WorkerMove.insert event keys dueAt).run uuid settings w).round id = w.round id +
      if (w.queue.find id).isNone ∧
          ((insertDeliveries w.queue event keys dueAt).2.find id).isSome then 1
      else 0 := by
  set queue := (insertDeliveries w.queue event keys dueAt).2 with hqueue
  have hnodup := queue.nodup.sublist
    (List.filter_sublist (p := fun id => (w.queue.find id).isNone) (l := queue.held.map Prod.fst))
  change (w.stored ++ _).count id = _
  rw [List.count_append, hnodup.count]
  refine congrArg (w.stored.count id + ·) (if_congr ?_ rfl rfl)
  rw [List.mem_filter, and_comm]
  refine and_congr Iff.rfl ⟨fun h => ?_, fun h => ?_⟩
  · obtain ⟨e, he, rfl⟩ := List.mem_map.mp h
    exact Option.isSome_of_eq_some (get_of_mem queue.nodup he)
  · obtain ⟨one, hone⟩ := Option.isSome_iff_exists.mp h
    exact List.mem_map_of_mem (f := Prod.fst) (mem_of_get hone)

/-- What is inserted is open, and has had no outcome. -/
theorem Accounted.insert (h : Accounted w batch outcomes) (uuid : ℕ → Str)
    (settings : SenderSettings)
    (event : UserEvent) (keys : List Str) (dueAt : Time) :
    Accounted ((WorkerMove.insert event keys dueAt).run uuid settings w) batch outcomes := by
  have hround := round_insert uuid settings w event keys dueAt
  set w' := (WorkerMove.insert event keys dueAt).run uuid settings w with hw'
  have hfind : ∀ {id one}, w.queue.find id = some one → w'.queue.find id = some one :=
    find_insertDeliveries_of_some
  have hsame : ∀ {id}, (w.queue.find id).isSome → w'.round id = w.round id := by
    intro id hid
    rw [hround, if_neg, Nat.add_zero]
    rintro ⟨hnone, -⟩
    rw [Option.isNone_iff_eq_none.mp hnone] at hid
    cases hid
  have hheld : ∀ d ∈ underWay batch w.flights, (w.queue.find d.id).isSome := by
    intro d hd
    obtain ⟨one, hone, -⟩ := h.current d hd
    exact Option.isSome_of_eq_some hone
  refine ⟨h.nodup, fun d hd => ?_, fun flight hflight => ?_, fun id round hlt => ?_,
    fun id round hopen => ?_, fun id round hpos hle hopen => ?_⟩
  · obtain ⟨one, hone, hlease⟩ := h.current d hd
    exact ⟨one, hfind hone, hlease⟩
  · rw [hsame (hheld _ (List.mem_append_right _ (List.mem_map_of_mem hflight)))]
    exact h.round flight hflight
  · refine h.fresh id round ?_
    rw [hround] at hlt
    omega
  · obtain ⟨rfl, hsome, htold⟩ := hopen
    by_cases hid : (w.queue.find id).isSome
    · rw [hsame hid]
      exact h.waits id _ ⟨rfl, hid, htold⟩
    · refine h.fresh id _ ?_
      rw [hround, if_pos ⟨by simpa using hid, hsome⟩]
      exact Nat.lt_succ_self _
  · by_cases hlast : round ≤ w.round id
    · refine h.settled id round hpos hlast fun hwas => hopen ?_
      obtain ⟨rfl, hsome, htold⟩ := hwas
      obtain ⟨one, hone⟩ := Option.isSome_iff_exists.mp hsome
      exact ⟨(hsame hsome).symm, Option.isSome_of_eq_some (hfind hone), htold⟩
    · -- inserted just now: open, since what is told is held
      refine absurd ?_ hopen
      rw [hround] at hle
      split at hle
      case isFalse => exact absurd hle hlast
      case isTrue hnew =>
        refine ⟨?_, hnew.2, ?_⟩
        · rw [hround, if_pos hnew]
          omega
        · rintro ⟨flight, hflight, rfl, -⟩
          have := hheld _ (List.mem_append_right _ (List.mem_map_of_mem hflight))
          rw [Option.isNone_iff_eq_none.mp hnew.1] at this
          cases this

end Janus.Webhooks
