import Janus.Webhooks.Accounts

/-!
# Webhooks/Outcomes — what `close()` leaves of every delivery accepted

While requests end within their leases, no pass claims what is under way.  Once the pump is stopped
and every attempt has ended, one claim takes all that is held, and each is reported: the queue is
empty, and the accounts of an empty queue have one outcome for each delivery.
-/

namespace Janus.Webhooks

open Js Insertion

/-! ## What the queue holds -/

/-- Every retry scheduled, and every claim, is made as of this instant at most. -/
def soon : ℤ := endOfTime - longest

theorem Clock.le_soon (clock : Clock) : clock.now ≤ soon := by
  have := clock.early
  unfold soon
  omega

theorem Clock.le_end (clock : Clock) : clock.now ≤ endOfTime := by
  have := clock.early
  omega

theorem Clock.add_le_soon (clock : Clock) {ms : ℕ} (h : ms ≤ longest) : clock.now + ms ≤ soon := by
  have := clock.early
  unfold soon
  omega

theorem soon_add_le {ms : ℕ} (h : ms ≤ longest) : soon + ms ≤ endOfTime := by
  unfold soon
  omega

theorem soon_nonneg : 0 ≤ soon := by decide

/-- What the last claim asks for is all that is held. -/
structure Stocked (settings : Settings) (q : Queue) : Prop where
  room : q.held.length < maxSafeInteger
  endpoint : ∀ id one, q.find id = some one → one.endpoint ∈ settings.keys
  due : ∀ id one, q.find id = some one → one.due ≤ endOfTime

/-- What is held was held before, at its endpoint, and due by the end of time. -/
def Restocks (q q' : Queue) : Prop :=
  ∀ id one', q'.find id = some one' →
    ∃ one, q.find id = some one ∧ one'.endpoint = one.endpoint ∧
    (one'.due = one.due ∨ one'.due ≤ endOfTime)

theorem Restocks.refl (q : Queue) : Restocks q q := fun _ one hone => ⟨one, hone, rfl, Or.inl rfl⟩

section Stocked

variable {settings : Settings} {q q' : Queue}

theorem Stocked.of_restocks (h : Stocked settings q) (hq : Restocks q q') :
    Stocked settings q' where
  room := by
    have hsub : q'.held.map Prod.fst ⊆ q.held.map Prod.fst := by
      intro id hid
      obtain ⟨e, he, rfl⟩ := List.mem_map.mp hid
      obtain ⟨one, hone, -⟩ := hq e.1 e.2 (get_of_mem q'.nodup he)
      exact List.mem_map.mpr ⟨(e.1, one), mem_of_get hone, rfl⟩
    have hle := (List.subperm_of_subset q'.nodup hsub).length_le
    rw [List.length_map, List.length_map] at hle
    exact hle.trans_lt h.room
  endpoint id one' hone' := by
    obtain ⟨one, hone, hendpoint, -⟩ := hq id one' hone'
    exact hendpoint ▸ h.endpoint id one hone
  due id one' hone' := by
    obtain ⟨one, hone, -, hdue⟩ := hq id one' hone'
    exact hdue.elim (fun hdue => hdue ▸ h.due id one hone) fun hdue => hdue

theorem Claims.restocks {uuid : ℕ → Str} {at_ leaseUntil : Time} {answered : List QueuedDelivery}
    (h : Claims uuid at_ leaseUntil q answered q') (hend : leaseUntil ≤ endOfTime) :
    Restocks q q' := by
  intro id one' hone'
  by_cases hd : ∃ d ∈ answered, d.id = id
  · obtain ⟨d, hd, rfl⟩ := hd
    obtain ⟨one, hone, -, hclaimed, -⟩ := h.taken d hd
    cases hclaimed.symm.trans hone'
    exact ⟨one, hone, rfl, Or.inr hend⟩
  · exact ⟨one', (h.kept id fun d hmem heq => hd ⟨d, hmem, heq⟩).symm.trans hone', rfl, Or.inl rfl⟩

theorem restocks_put {id : Str} {one : Held} (one' : Held) (hone : q.find id = some one)
    (hendpoint : one'.endpoint = one.endpoint) (hdue : one'.due ≤ endOfTime) :
    Restocks q (q.put id one') := by
  intro id' two htwo
  rw [Queue.find_put] at htwo
  split at htwo
  case isTrue heq =>
    cases htwo
    exact ⟨one, heq ▸ hone, hendpoint, Or.inr hdue⟩
  case isFalse => exact ⟨two, htwo, rfl, Or.inl rfl⟩

theorem restocks_remove (id : Str) : Restocks q (q.remove id) := by
  intro id' two htwo
  rw [Queue.find_remove] at htwo
  split at htwo
  · cases htwo
  · exact ⟨two, htwo, rfl, Or.inl rfl⟩

theorem find_insertEach_due {event : UserEvent} {dueAt : Time} {keys : List Str}
    {r : ℕ × Queue} {id : Str}
    {one : Held} (h : (insertEach event dueAt keys r).2.find id = some one) :
    r.2.find id = some one ∨ one.endpoint ∈ keys ∧ one.due = dueAt := by
  induction keys generalizing r with
  | nil => exact Or.inl h
  | cons key keys ih =>
    obtain ⟨inserted, q⟩ := r
    rw [insertEach] at h
    split at h
    case isTrue => exact (ih h).imp_right fun h => ⟨List.mem_cons_of_mem _ h.1, h.2⟩
    case isFalse =>
      rcases ih h with h | h
      · rw [Queue.find_put] at h
        split at h
        · cases h
          exact Or.inr ⟨List.mem_cons_self, rfl⟩
        · exact Or.inl h
      · exact Or.inr ⟨List.mem_cons_of_mem _ h.1, h.2⟩

theorem Stocked.insert (h : Stocked settings q) {event : UserEvent} {keys : List Str}
    {clock : Clock}
    (hkeys : ∀ key ∈ keys, key ∈ settings.keys)
    (hroom : (insertDeliveries q event keys clock.now).2.held.length < maxSafeInteger) :
    Stocked settings (insertDeliveries q event keys clock.now).2 := by
  have hnew : ∀ id one, (insertDeliveries q event keys clock.now).2.find id = some one →
      q.find id = some one ∨ one.endpoint ∈ keys ∧ one.due = clock.now := by
    intro id one hone
    exact (find_insertEach_due hone).imp_right fun h => ⟨by simpa using h.1, h.2⟩
  refine ⟨hroom, fun id one hone => ?_, fun id one hone => ?_⟩
  · rcases hnew id one hone with hone | ⟨hmem, -⟩
    · exact h.endpoint id one hone
    · exact hkeys _ hmem
  · rcases hnew id one hone with hone | ⟨-, hdue⟩
    · exact h.due id one hone
    · exact hdue.trans_le clock.le_end

/-- The writes under a lease that is held. -/
theorem extendLease_eq {id lease : Str} {one : Held} (hone : q.find id = some one)
    (hlease : one.lease = some lease) (until_ : Time) :
    extendLease q id lease until_ = (true, q.put id (one.extended until_)) := by
  rw [extendLease, leased_eq_some.mpr ⟨hone, hlease⟩]

theorem scheduleRetry_eq {id lease : Str} {one : Held} (hone : q.find id = some one)
    (hlease : one.lease = some lease) (dueAt : Time) (failed : Failure) :
    scheduleRetry q id lease dueAt failed = (true, q.put id (one.released dueAt failed)) := by
  rw [scheduleRetry, leased_eq_some.mpr ⟨hone, hlease⟩]

theorem deleteDelivery_eq {id lease : Str} {one : Held} (hone : q.find id = some one)
    (hlease : one.lease = some lease) : deleteDelivery q id lease = (true, q.remove id) := by
  rw [deleteDelivery, leased_eq_some.mpr ⟨hone, hlease⟩]

theorem keepsHeld_put {id : Str} {one : Held} (one' : Held) (hone : q.find id = some one)
    (hlease : one'.lease = one.lease) : KeepsHeld q (q.put id one') where
  isSome id' := by
    rw [Queue.find_put]
    split
    case isTrue heq => rw [← heq, hone, Option.isSome_some, Option.isSome_some]
    case isFalse => exact Iff.rfl
  current id' lease := by
    rintro ⟨two, htwo, hcurrent⟩
    rw [Current, Queue.find_put]
    split
    case isTrue heq =>
      cases hone.symm.trans (heq ▸ htwo)
      exact ⟨one', rfl, hlease.trans hcurrent⟩
    case isFalse => exact ⟨two, htwo, hcurrent⟩

end Stocked

/-! ## The invariant -/

/-- The stages of a delivery given up. -/
def Stage.IsGivenUp : Stage → Prop
  | .givingUp _ _ | .reporting _ _ | .reported => True
  | _ => False

namespace Worker

/-- Every outcome so far. -/
def outcomes (w : Worker) : List (Str × ℕ) := w.removed ++ w.reports.map Prod.fst

/-- No pass asked the queue and waits for its answer. -/
def Unasked (w : Worker) : Prop := ∀ asked, w.pump.pumping ≠ some (.claiming asked)

/-- What holds where `close()` stands. -/
def Standing (w : Worker) : Closing → Prop
  | .inserting | .idling | .idled _ | .racing _ | .flushed => True
  | .stopping => w.pump.stopped = true
  | .landing sending => w.pump.stopped = true ∧ w.Unasked ∧ ∀ lease ∈ w.sending, lease ∈ sending
  | .claiming => w.pump.stopped = true ∧ w.Unasked ∧ w.flights = [] ∧
      ∀ id, (w.queue.find id).isSome → ∃ d ∈ w.batch, d.id = id
  | .abandoning => w.pump.stopped = true ∧ w.Unasked ∧
      ∀ id, (w.queue.find id).isSome → ∃ flight ∈ w.flights, flight.claimed.id = id ∧
      flight.stage.IsGivenUp
  | .closed => w.pump.stopped = true ∧ w.Unasked ∧ ∀ id, w.queue.find id = none

/-- **The invariant of a worker.** -/
structure Sound (settings : Settings) (w : Worker) : Prop where
  accounted : Accounted w.toWorkers w.batch w.outcomes
  stocked : Stocked settings w.queue
  dueBy : DueBy settings.pump soon w.pump
  reminders : ∀ at_ ∈ w.reminders, at_ ≤ soon
  retrying : ∀ flight ∈ w.flights, ∀ dueAt failed, flight.stage =
    .retrying dueAt failed → dueAt ≤ soon
  unread : w.batch ≠ [] → ¬ w.Unasked ∨ w.closing = some .claiming
  standing : ∀ closing ∈ w.closing, w.Standing closing

section Steps

variable {uuid : ℕ → Str} {settings : Settings} {w w' : Worker}

theorem Sound.start : Sound settings (startWorker settings) where
  accounted := Accounted.start
  stocked := ⟨(by decide : 0 < maxSafeInteger), nofun, nofun⟩
  dueBy := ⟨soon_nonneg, nofun, nofun⟩
  reminders _ h := absurd h List.not_mem_nil
  retrying _ h := absurd h List.not_mem_nil
  unread h := absurd rfl h
  standing _ h := nomatch h

/-- What a step may do once the pump is stopped, wherever `close()` stands. -/
structure Settles (w w' : Worker) : Prop where
  stopped : w.pump.stopped = true → w'.pump.stopped = true
  unasked : w.pump.stopped = true → w.Unasked → w'.Unasked
  sending : w.Unasked → w.closing ≠ some .abandoning → ∀ lease ∈ w'.sending, lease ∈ w.sending
  held : w.closing.isSome → ∀ id, (w'.queue.find id).isSome → (w.queue.find id).isSome
  flights : w.flights = [] → w.Unasked → w'.flights = []
  batch : w.Unasked → w.pump.stopped = true → w'.batch = w.batch
  givenUp : w.Unasked → ∀ flight ∈ w.flights, flight.stage.IsGivenUp →
    (w'.queue.find flight.claimed.id).isSome →
    ∃ flight' ∈ w'.flights, flight'.claimed.id = flight.claimed.id ∧ flight'.stage.IsGivenUp

/-- …keeps what holds there. -/
theorem Standing.of_settles (h : Settles w w') {closing : Closing}
    (hclosing : w.closing = some closing)
    (hstanding : w.Standing closing) : w'.Standing closing := by
  have hsome : w.closing.isSome := Option.isSome_of_eq_some hclosing
  cases closing with
  | inserting | idling | idled | racing | flushed => trivial
  | stopping => exact h.stopped hstanding
  | landing sending =>
    obtain ⟨hstopped, hunasked, hsending⟩ := hstanding
    refine ⟨h.stopped hstopped, h.unasked hstopped hunasked, fun lease hlease => hsending lease ?_⟩
    exact h.sending hunasked (by rw [hclosing]; nofun) lease hlease
  | claiming =>
    obtain ⟨hstopped, hunasked, hflights, htaken⟩ := hstanding
    refine ⟨h.stopped hstopped, h.unasked hstopped hunasked, h.flights hflights hunasked,
      fun id hid => ?_⟩
    rw [h.batch hunasked hstopped]
    exact htaken id (h.held hsome id hid)
  | abandoning =>
    obtain ⟨hstopped, hunasked, htaken⟩ := hstanding
    refine ⟨h.stopped hstopped, h.unasked hstopped hunasked, fun id hid => ?_⟩
    obtain ⟨flight, hflight, rfl, hstage⟩ := htaken id (h.held hsome id hid)
    exact h.givenUp hunasked flight hflight hstage hid
  | closed =>
    obtain ⟨hstopped, hunasked, hnone⟩ := hstanding
    refine ⟨h.stopped hstopped, h.unasked hstopped hunasked, fun id => ?_⟩
    by_contra hne
    have := h.held hsome id (Option.isSome_iff_ne_none.mpr hne)
    rw [hnone id] at this
    cases this

/-! ### The pump -/

theorem pump_pumped (w : Worker) (move : PumpMove) :
    (w.pumped uuid settings move).pump = move.run settings.pump w.pump := by
  rw [pumped]
  dsimp only
  split
  · split <;> rfl
  · rfl

/-- No pass begins: nothing else moves. -/
theorem pumped_of_continues {move : PumpMove}
    (h : Continues w.pump (move.run settings.pump w.pump)) :
    w.pumped uuid settings move = { w with pump := move.run settings.pump w.pump } := by
  rw [pumped]
  exact if_neg (by rw [h.passes]; exact lt_irrefl _)

/-- **A step of the pump**: a pass that begins claims what is due, and nothing under way is. -/
theorem Sound.pumped (h : Sound settings w) {move : PumpMove}
    (hmove : ∀ claimed, move ≠ .answer claimed)
    (hinstants : ∀ t ∈ move.instants, t ≤ soon)
    (htime : ∀ asked, w.pump.passes < (w.pumped uuid settings move).pump.passes →
      (w.pumped uuid settings move).pump.pumping = some (.claiming asked) →
      ∀ flight ∈ w.flights, ∀ one ∈ w.queue.find flight.claimed.id, asked.now < one.due) :
    Sound settings (w.pumped uuid settings move) := by
  have hdue := h.dueBy.run move hinstants soon_nonneg
  rcases begins_or_continues settings.pump move hmove w.pump with hbegins | hcontinues
  case inr =>
    rw [pumped_of_continues hcontinues]
    have hunasked : w.Unasked → ({ w with pump := move.run settings.pump w.pump } : Worker).Unasked :=
      fun hunasked asked hasked => hunasked asked ((hcontinues.asks asked).mp hasked)
    refine ⟨h.accounted, h.stocked, hdue, h.reminders, h.retrying, fun hbatch => ?_,
      fun closing hclosing => Standing.of_settles (w := w) ?_ hclosing
      (h.standing closing hclosing)⟩
    · refine (h.unread hbatch).imp_left fun hasks hunasked => hasks fun asked hasked => ?_
      exact hunasked asked ((hcontinues.asks asked).mpr hasked)
    · exact ⟨fun hstopped => stopped_run move hstopped, fun _ => hunasked,
        fun _ _ _ hlease => hlease,
        fun _ _ hid => hid, fun hflights _ => hflights, fun _ _ => rfl,
        fun _ flight hflight hstage _ => ⟨flight, hflight, rfl, hstage⟩⟩
  case inl =>
    -- the pump is not stopped, so `close()` stands where nothing is asked of it
    have hstanding : ∀ closing ∈ w.closing, ∀ w' : Worker, w'.Standing closing := by
      intro closing hclosing w'
      have hgoing := hbegins.going
      have hstands := h.standing closing hclosing
      cases closing with
      | inserting | idling | idled | racing | flushed => trivial
      | stopping => cases hgoing.symm.trans hstands
      | landing | claiming | abandoning | closed => cases hgoing.symm.trans hstands.1
    have hbatch : w.batch = [] := by
      by_contra hne
      rcases h.unread hne with hasks | hclaiming
      · exact hasks hbegins.asks
      · cases hbegins.going.symm.trans (h.standing _ hclaiming).1
    have hlt : w.pump.passes < (move.run settings.pump w.pump).passes :=
      hbegins.passes ▸ Nat.lt_succ_self _
    rw [pump_pumped] at htime
    rw [Worker.pumped]
    simp only [if_pos hlt]
    split
    case h_1 asked hasked =>
      set claims := claimDeliveries uuid w.queue (settings.keys.drop asked.first ++
        settings.keys.take asked.first) asked.now asked.leaseUntil asked.free
      have hclaims : Claims uuid asked.now asked.leaseUntil w.queue claims.1 claims.2 :=
        claim_spec w.queue _
      have hend : asked.leaseUntil ≤ endOfTime :=
        (hdue.asked asked hasked).trans (soon_add_le settings.leaseMs_le)
      refine ⟨(hbatch ▸ h.accounted).claimed hclaims fun d hd flight hflight hid => ?_,
        h.stocked.of_restocks (hclaims.restocks hend), hdue, h.reminders, h.retrying,
        fun _ => Or.inl fun hunasked => hunasked asked hasked, fun closing hclosing =>
          hstanding closing hclosing _⟩
      obtain ⟨one, hone, hle, -⟩ := hclaims.taken d hd
      exact absurd (htime asked hlt hasked flight hflight one (hid ▸ hone)) (not_lt.mpr hle)
    case h_2 =>
      exact ⟨h.accounted, h.stocked, hdue, h.reminders, h.retrying, fun hne => absurd hbatch hne,
        fun closing hclosing => hstanding closing hclosing _⟩

/-- A pass reads what it claimed. -/
theorem Sound.claimAnswered (h : Sound settings w) : Sound settings (w.claimAnswered settings) := by
  rw [Worker.claimAnswered]
  split
  case h_2 => exact h
  case h_1 asked hasked =>
    have hstanding : ∀ closing ∈ w.closing, ∀ w' : Worker, w'.pump.stopped = w.pump.stopped →
        w'.Standing closing := by
      intro closing hclosing w' hstopped
      have hstands := h.standing closing hclosing
      cases closing with
      | inserting | idling | idled | racing | flushed => trivial
      | stopping => exact hstopped.trans hstands
      | landing | claiming | abandoning | closed => exact absurd hasked (hstands.2.1 asked)
    refine ⟨h.accounted.started (fun _ => nofun), h.stocked,
      h.dueBy.run (.answer (some w.batch.length))
      (fun _ ht => absurd ht List.not_mem_nil) soon_nonneg,
      h.reminders, fun flight hflight dueAt failed hstage => ?_, fun hne =>
        absurd rfl hne, fun closing hclosing => ?_⟩
    · rcases List.mem_append.mp hflight with hflight | hflight
      · exact h.retrying flight hflight dueAt failed hstage
      · obtain ⟨d, -, rfl⟩ := List.mem_map.mp hflight
        cases hstage
    · refine hstanding closing hclosing _ ?_
      simp only [PumpMove.run, hasked, pumpAnswered]

/-! ### One attempt -/

section Flight

variable {i : ℕ} {flight : Flight} {queue : Queue}

/-- The lease an attempt under way holds. -/
theorem Sound.leased (h : Sound settings w) (hi : w.flights[i]? = some flight) :
    ∃ one, w.queue.find flight.claimed.id = some one ∧ one.lease = some flight.claimed.lease :=
  h.accounted.current flight.claimed
    (List.mem_append_right _ (List.mem_map_of_mem (List.mem_of_getElem? hi)))

/-- An attempt at another stage. -/
theorem Sound.moved (h : Sound settings w) (hi : w.flights[i]? = some flight)
    (hstage : flight.stage ≠ .reported) (stage : Stage) (hqueue : KeepsHeld w.queue queue)
    (hrestocks : Restocks w.queue queue) (posts : List (QueuedDelivery × ℕ))
    {reports : List ((Str × ℕ) × Report)}
    (houtcomes : (w.removed ++ reports.map Prod.fst).Perm
      (w.outcomes ++ if stage = .reported then [(flight.claimed.id, flight.round)] else []))
    (hretrying : ∀ dueAt failed, stage = .retrying dueAt failed → dueAt ≤ soon)
    (hgivenUp : flight.stage.IsGivenUp → stage.IsGivenUp) :
    Sound settings { w with
      toWorkers := { w.toWorkers.moved i flight stage with queue := queue, posts := posts }
      reports := reports } := by
  have haccounted := h.accounted.moved hi hstage hqueue houtcomes
  obtain ⟨l₁, l₂, hl, hset, -⟩ := split_at hi
  have hmem : ∀ flight', flight' ∈ w.flights.set i { flight with stage := stage } →
      flight' = { flight with stage := stage } ∨ flight' ∈ w.flights := by
    intro flight' hflight'
    rw [hset] at hflight'
    rw [hl]
    grind
  refine ⟨⟨haccounted.nodup, haccounted.current, haccounted.round, haccounted.fresh, haccounted.waits,
    haccounted.settled⟩, h.stocked.of_restocks hrestocks, h.dueBy, h.reminders,
    fun flight' hflight' dueAt failed heq => ?_, h.unread,
    fun closing hclosing => Standing.of_settles (w := w) ?_ hclosing (h.standing closing hclosing)⟩
  · rcases hmem flight' hflight' with rfl | hflight'
    · exact hretrying dueAt failed heq
    · exact h.retrying flight' hflight' dueAt failed heq
  · refine ⟨id, fun _ => id, fun _ _ lease hlease => ?_, fun _ id hid => (hqueue.isSome id).mp hid,
      fun hflights => ?_, fun _ _ => rfl, fun _ flight' hflight' hgiven _ => ?_⟩
    · have hsame : (w.flights.set i { flight with stage := stage }).map (·.claimed.lease) =
          w.flights.map (·.claimed.lease) := by
        rw [hset, hl, List.map_append, List.map_append, List.map_cons, List.map_cons]
      change lease ∈ (w.flights.set i { flight with stage := stage }).map (·.claimed.lease) ++
        w.settled
        at hlease
      rwa [hsame] at hlease
    · rw [hflights] at hi
      cases hi
    · rw [hl] at hflight'
      change ∃ flight'' ∈ w.flights.set i { flight with stage := stage }, _
      rw [hset]
      rcases List.mem_append.mp hflight' with hflight' | hflight'
      · exact ⟨flight', List.mem_append_left _ hflight', rfl, hgiven⟩
      · rcases List.mem_cons.mp hflight' with rfl | hflight'
        · exact ⟨_, List.mem_append_right _ List.mem_cons_self, rfl, hgivenUp hgiven⟩
        · exact ⟨flight', List.mem_append_right _ (List.mem_cons_of_mem _ hflight'), rfl, hgiven⟩

/-- An attempt that ended. -/
theorem Sound.landed (h : Sound settings w) (hi : w.flights[i]? = some flight)
    (hrestocks : Restocks w.queue queue)
    (hothers : ∀ id, id ≠ flight.claimed.id → queue.find id = w.queue.find id)
    (hheld : (queue.find flight.claimed.id).isSome → ¬ flight.stage.IsGivenUp)
    {removed : List (Str × ℕ)} {reminders : List Time}
    (houtcomes : (removed ++ w.reports.map Prod.fst).Perm (w.outcomes ++
      if (queue.find flight.claimed.id).isSome ∨ flight.stage = .reported then []
      else [(flight.claimed.id, flight.round)]))
    (hreminders : ∀ at_ ∈ reminders, at_ ≤ soon) :
    Sound settings { ({ w with toWorkers := w.toWorkers.landed i queue } : Worker).ended flight with
      removed := removed
      reminders := reminders } := by
  obtain ⟨one, hone, -⟩ := h.leased hi
  have haccounted := h.accounted.landed hi hothers
    (fun hsome hreported => hheld hsome (hreported ▸ trivial)) houtcomes
  obtain ⟨l₁, l₂, hl, -, herase⟩ := split_at hi
  refine ⟨haccounted, h.stocked.of_restocks hrestocks, h.dueBy, hreminders,
    fun flight' hflight' => h.retrying flight' (List.mem_of_mem_eraseIdx hflight'), h.unread,
    fun closing hclosing => Standing.of_settles (w := w) ?_ hclosing (h.standing closing hclosing)⟩
  refine ⟨id, fun _ => id, fun _ hclosing lease hlease => ?_, fun _ id hid => ?_,
    fun hflights => ?_,
    fun _ _ => rfl, fun _ flight' hflight' hgiven hsome => ?_⟩
  · have hlease' : lease ∈ (w.flights.eraseIdx i).map (·.claimed.lease) ++
        if w.closing = some .abandoning then w.settled else w.settled ++ [flight.claimed.lease] :=
        hlease
    rw [if_neg hclosing, herase] at hlease'
    rw [sending, hl]
    grind
  · by_cases heq : id = flight.claimed.id
    · rw [heq, hone, Option.isSome_some]
    · rwa [← hothers id heq]
  · rw [hflights] at hi
    cases hi
  · rw [hl] at hflight'
    change ∃ flight'' ∈ w.flights.eraseIdx i, _
    rw [herase]
    have hne : flight' ≠ flight := fun heq => hheld (heq ▸ hsome) (heq ▸ hgiven)
    refine ⟨flight', ?_, rfl, hgiven⟩
    simpa [hne] using hflight'

/-- An attempt at another stage, no outcome, and nothing written. -/
theorem Sound.turned (h : Sound settings w) (hi : w.flights[i]? = some flight)
    (hstage : flight.stage ≠ .reported) (posts : List (QueuedDelivery × ℕ)) (stage : Stage)
    (hstage' : stage ≠ .reported)
    (hretrying : ∀ dueAt failed, stage = .retrying dueAt failed → dueAt ≤ soon)
    (hgivenUp : flight.stage.IsGivenUp → stage.IsGivenUp) :
    Sound settings { w with toWorkers := { w.toWorkers.moved i flight stage with posts := posts } } :=
  h.moved hi hstage stage (KeepsHeld.refl _) (Restocks.refl _) posts
    (by rw [if_neg hstage', List.append_nil]; exact List.Perm.refl _) hretrying hgivenUp

theorem Sound.request (h : Sound settings w) (i : ℕ) (configured retries : Bool) (now : Time) :
    Sound settings (w.attempted uuid settings (.request i configured (.ok ()) retries now)) := by
  rw [attempted, WorkerMove.run]
  split
  case h_1 claimed round hi =>
    cases configured with
    | false =>
      exact h.turned hi (by simp) w.posts (abandoned claimed .endpointRemoved) (by simp [abandoned])
        (by simp [abandoned]) False.elim
    | true =>
      exact h.turned hi (by simp) (w.posts ++ [(claimed, round)]) .posted (by simp)
        (by simp) False.elim
  case h_2 => exact h

/-- What a failure leads to is no report, and a retry is due soon. -/
theorem afterFailure_cases (settings : Settings) (claimed : QueuedDelivery) (failed : Failure)
    (retries : Bool) (clock : Clock) :
    afterFailure settings.sender claimed failed retries clock.now ≠ .reported ∧
      ∀ dueAt failed', afterFailure settings.sender claimed failed retries clock.now =
      .retrying dueAt failed' →
        dueAt ≤ soon := by
  rw [afterFailure]
  split
  case h_1 => simp
  case h_2 delay hdelay =>
    split
    · refine ⟨by simp, fun dueAt failed' heq => ?_⟩
      cases heq
      exact clock.add_le_soon (settings.delays_le delay (List.mem_of_getElem? hdelay))
    · simp

theorem Sound.answer (h : Sound settings w) (i : ℕ) (failed : Option Failure) (retries : Bool)
    (clock : Clock) :
    Sound settings (w.attempted uuid settings (.answer i failed retries clock.now)) := by
  rw [attempted, WorkerMove.run]
  split
  case h_1 claimed round hi =>
    cases failed with
    | none => exact h.turned hi (by simp) w.posts .delivered (by simp) (by simp) False.elim
    | some failed =>
      obtain ⟨hne, hdue⟩ := afterFailure_cases settings claimed failed retries clock
      exact h.turned hi (by simp) w.posts _ hne hdue False.elim
  case h_2 => exact h

theorem Sound.heartbeat (h : Sound settings w) (i : ℕ) (clock : Clock) :
    Sound settings (w.attempted uuid settings (.heartbeat i clock.now)) := by
  rw [attempted, WorkerMove.run]
  split
  case h_1 claimed round attempts reason hi =>
    obtain ⟨one, hone, hlease⟩ := h.leased hi
    obtain ⟨l₁, l₂, hl, hset, -⟩ := split_at hi
    have hsame : w.flights.set i ⟨claimed, round, .reporting attempts reason⟩ = w.flights :=
      (hset _).trans hl.symm
    have hdue : (one.extended (clock.now + settings.leaseMs)).due ≤ endOfTime :=
      (clock.add_le_soon settings.leaseMs_le).trans (soon_add_le (Nat.zero_le longest))
    have hmoved := h.moved hi (by simp) (.reporting attempts reason)
      (keepsHeld_put (one.extended (clock.now + settings.leaseMs)) hone rfl)
      (restocks_put _ hone rfl hdue) w.posts
      (by rw [if_neg (by simp), List.append_nil]; exact List.Perm.refl _)
      (by simp) id
    rw [Workers.moved, hsame] at hmoved
    rw [show extendLease w.queue claimed.id claimed.lease _ = _ from extendLease_eq hone hlease _]
    exact hmoved
  case h_2 => exact h

theorem Sound.report (h : Sound settings w) (i : ℕ) :
    Sound settings ((Happening.report i).run uuid settings w) := by
  rw [Happening.run]
  split
  case h_1 claimed round attempts reason hi =>
    rw [attempted, WorkerMove.run, hi]
    refine h.moved hi (by simp) .reported (KeepsHeld.refl _) (Restocks.refl _) w.posts ?_ (by simp)
      fun _ => trivial
    rw [if_pos rfl, List.map_append, outcomes, List.append_assoc]
    exact List.Perm.refl _
  case h_2 => exact h

theorem Sound.wrote (h : Sound settings w) (hi : w.flights[i]? = some flight) (clock : Clock) :
    Sound settings (w.wrote settings i flight clock) := by
  obtain ⟨one, hone, hlease⟩ := h.leased hi
  have hremove : ∀ id, id ≠ flight.claimed.id → (w.queue.remove flight.claimed.id).find id =
    w.queue.find id :=
    fun id hid => (Queue.find_remove ..).trans (if_neg (Ne.symm hid))
  have hgone : (w.queue.remove flight.claimed.id).find flight.claimed.id = none :=
    (Queue.find_remove ..).trans (if_pos rfl)
  rw [Worker.wrote]
  dsimp only
  rw [writeOf]
  split
  case h_1 hstage =>
    simp only [hstage, deleteDelivery_eq hone hlease, if_true]
    refine h.landed hi (restocks_remove _) hremove (fun hsome => ?_) ?_ h.reminders
    · rw [hgone] at hsome
      cases hsome
    · rw [hgone, if_neg (by simp [hstage]), outcomes, List.append_assoc, List.append_assoc]
      exact List.Perm.append_left _ List.perm_append_comm
  case h_2 dueAt failed hstage =>
    have hfind : ∀ id, id ≠ flight.claimed.id →
        (w.queue.put flight.claimed.id (one.released dueAt failed)).find id = w.queue.find id :=
      fun id hid => (Queue.find_put ..).trans (if_neg (Ne.symm hid))
    have hsoon := h.retrying flight (List.mem_of_getElem? hi) dueAt failed hstage
    have hput := restocks_put (one.released dueAt failed) hone rfl
      (hsoon.trans (soon_add_le (Nat.zero_le longest)))
    have hlanded : ∀ reminders : List Time, (∀ at_ ∈ reminders, at_ ≤ soon) → Sound settings
        { ({ w with toWorkers := w.toWorkers.landed i (w.queue.put flight.claimed.id
            (one.released dueAt failed)) } : Worker).ended flight with
          removed := w.removed
          reminders := reminders } := by
      intro reminders hreminders
      refine h.landed hi hput hfind (fun _ => by rw [hstage]; exact id) ?_ hreminders
      rw [Queue.find_put, if_pos rfl, Option.isSome_some, if_pos (Or.inl rfl), List.append_nil]
      exact List.Perm.refl _
    simp only [hstage, scheduleRetry_eq hone hlease, if_true, true_and]
    split
    · refine hlanded _ fun at_ hat => ?_
      rcases List.mem_append.mp hat with hat | hat
      · exact h.reminders at_ hat
      · rw [List.mem_singleton.mp hat]
        exact hsoon
    · exact hlanded w.reminders h.reminders
  case h_3 attempts reason hstage =>
    have hdue : (one.extended (clock.now + settings.leaseMs)).due ≤ endOfTime :=
      (clock.add_le_soon settings.leaseMs_le).trans (soon_add_le (Nat.zero_le longest))
    have hextend : extendLease w.queue flight.claimed.id flight.claimed.lease
        (clock.now + settings.sender.leaseMs) = _ := extendLease_eq hone hlease _
    simp only [hstage, hextend, if_true]
    rw [if_neg]
    · exact h.moved hi (by simp [hstage]) (.reporting attempts reason)
        (keepsHeld_put (one.extended (clock.now + settings.leaseMs)) hone rfl)
        (restocks_put _ hone rfl hdue)
        w.posts (by rw [if_neg (by simp), List.append_nil]; exact List.Perm.refl _) (by simp)
          fun _ => trivial
    · simp [Workers.moved]
  case h_4 hstage =>
    simp only [hstage, deleteDelivery_eq hone hlease, if_true]
    refine h.landed hi (restocks_remove _) hremove (fun hsome => ?_) ?_ h.reminders
    · rw [hgone] at hsome
      cases hsome
    · rw [if_pos (Or.inr hstage), List.append_nil]
      exact List.Perm.refl _
  case h_5 => exact h

end Flight

/-! ### The listener -/

theorem Sound.accept (h : Sound settings w) (hopen : w.closing = none) (event : UserEvent)
    {keys : List Str}
    (hkeys : ∀ key ∈ keys, key ∈ settings.keys) (clock : Clock) :
    Sound settings (w.accept uuid settings event keys clock) := by
  rw [Worker.accept]
  split
  case isTrue => exact h
  case isFalse hroom =>
    refine ⟨h.accounted.insert uuid settings.sender event keys clock.now,
      h.stocked.insert hkeys (Nat.lt_of_not_le hroom), h.dueBy, h.reminders, h.retrying, h.unread,
      fun closing hclosing => ?_⟩
    cases hopen.symm.trans hclosing

theorem Sound.listener (h : Sound settings w) (given : Given) (clock : Clock) :
    Sound settings (w.listener uuid settings given clock) := by
  rw [Worker.listener]
  split
  case h_1 => exact h
  case h_2 event hevent =>
    dsimp only
    split_ifs with hnobody hclosed
    · exact h
    · exact ⟨h.accounted, h.stocked, h.dueBy, h.reminders, h.retrying, h.unread, h.standing⟩
    · refine h.accept (by simpa using hclosed) event (fun key hkey => ?_) clock
      obtain ⟨target, htarget, rfl⟩ := List.mem_map.mp hkey
      exact List.mem_map_of_mem (List.mem_of_mem_filter htarget)

/-! ### The close -/

theorem Sound.freed (h : Sound settings w) (i : ℕ) :
    Sound settings { w with settled := w.settled.eraseIdx i } := by
  refine ⟨h.accounted, h.stocked, h.dueBy, h.reminders, h.retrying, h.unread,
    fun closing hclosing => Standing.of_settles (w := w) ?_ hclosing (h.standing closing hclosing)⟩
  refine ⟨id, fun _ => id, fun _ _ lease hlease => ?_, fun _ _ => id, fun hflights _ => hflights,
    fun _ _ => rfl, fun _ flight hflight hstage _ => ⟨flight, hflight, rfl, hstage⟩⟩
  rcases List.mem_append.mp hlease with hlease | hlease
  · exact List.mem_append_left _ hlease
  · exact List.mem_append_right _ (List.mem_of_mem_eraseIdx hlease)

theorem Sound.close (h : Sound settings w) (hopen : w.closing = none) :
    Sound settings { w with
      closing := some .inserting
      pump := PumpMove.run settings.pump w.pump .quiet
      reminders := [] } := by
  refine ⟨h.accounted, h.stocked,
    h.dueBy.run .quiet (fun _ ht => absurd ht List.not_mem_nil) soon_nonneg,
    fun _ ht => absurd ht List.not_mem_nil, h.retrying, fun hbatch =>
    ?_, fun closing hclosing => ?_⟩
  · refine (h.unread hbatch).imp id fun hclaiming => ?_
    cases hopen.symm.trans hclaiming
  · cases hclosing
    trivial

/-- `close()` at a place where nothing is asked of it yet. -/
theorem Sound.at (h : Sound settings w) (hclosing : w.closing ≠ some .claiming) {closing : Closing}
    (hstanding : ({ w with closing := some closing } : Worker).Standing closing) :
    Sound settings { w with closing := some closing } := by
  refine ⟨h.accounted, h.stocked, h.dueBy, h.reminders, h.retrying, fun hbatch => ?_,
    fun closing' heq => ?_⟩
  · exact (h.unread hbatch).imp id fun hclaiming => absurd hclaiming hclosing
  · cases heq
    exact hstanding

/-- No pass claims what is under way: requests end within their leases, and heartbeats fire in time.
-/
def InTime (uuid : ℕ → Str) (settings : Settings) (w : Worker) (move : Happening) : Prop :=
  ∀ asked, w.pump.passes < (move.run uuid settings w).pump.passes →
    (move.run uuid settings w).pump.pumping = some (.claiming asked) →
    ∀ flight ∈ w.flights, ∀ one ∈ w.queue.find flight.claimed.id, asked.now < one.due

/-- The last claim takes all that is held. -/
theorem Sound.drained (h : Sound settings w) {sending : List Str}
    (hclosing : w.closing = some (.landing sending))
    (hended : ∀ lease ∈ sending, lease ∉ w.sending) :
    let claims := claimDeliveries uuid w.queue settings.keys endOfTime endOfTime maxSafeInteger
    Sound settings { w with queue := claims.2, batch := claims.1, closing := some .claiming } := by
  intro claims
  obtain ⟨hstopped, hunasked, hsending⟩ := h.standing _ hclosing
  have hflights : w.flights = [] := by
    refine List.eq_nil_iff_forall_not_mem.mpr fun flight hflight => ?_
    have hmem : flight.claimed.lease ∈ w.sending :=
      List.mem_append_left _ (List.mem_map_of_mem (f := fun flight => flight.claimed.lease) hflight)
    exact hended _ (hsending _ hmem) hmem
  have hbatch : w.batch = [] := by
    by_contra hne
    rcases h.unread hne with hasks | hclaiming
    · exact hasks hunasked
    · cases hclosing.symm.trans hclaiming
  have hclaims : Claims uuid endOfTime endOfTime w.queue claims.1 claims.2 :=
    claim_spec w.queue settings.keys
  have hroom : (claims.1.length : ℤ) < maxSafeInteger :=
    Int.ofNat_lt.mpr (hclaims.length_le.trans_lt h.stocked.room)
  have hother : ∀ d ∈ claims.1, ∀ flight ∈ w.flights, flight.claimed.id ≠ d.id := by
    rw [hflights]
    exact fun _ _ _ hflight => absurd hflight List.not_mem_nil
  refine ⟨(hbatch ▸ h.accounted).claimed hclaims hother,
    h.stocked.of_restocks (hclaims.restocks le_rfl),
    h.dueBy, h.reminders, h.retrying, fun _ => Or.inr rfl, fun closing heq => ?_⟩
  cases heq
  refine ⟨hstopped, hunasked, hflights, fun id hid => ?_⟩
  obtain ⟨one, hone⟩ := Option.isSome_iff_exists.mp ((hclaims.isSome id).mp hid)
  exact claim_takes hroom hone (h.stocked.endpoint id one hone) (h.stocked.due id one hone)

/-- …and each is given up. -/
theorem Sound.abandoned (h : Sound settings w) (hclosing : w.closing = some .claiming) :
    Sound settings { w with
      toWorkers := w.toWorkers.started (Webhooks.abandoned · .closed) (w.batch, w.queue)
      batch := []
      closing := some .abandoning } := by
  obtain ⟨hstopped, hunasked, hflights, htaken⟩ := h.standing _ hclosing
  refine ⟨h.accounted.started fun _ => nofun, h.stocked, h.dueBy, h.reminders,
    fun flight hflight dueAt failed hstage => ?_, fun hne => absurd rfl hne, fun closing heq => ?_⟩
  · rcases List.mem_append.mp hflight with hflight | hflight
    · exact h.retrying flight hflight dueAt failed hstage
    · obtain ⟨d, -, rfl⟩ := List.mem_map.mp hflight
      cases hstage
  · cases heq
    refine ⟨hstopped, hunasked, fun id hid => ?_⟩
    obtain ⟨d, hd, rfl⟩ := htaken id hid
    exact ⟨_, List.mem_append_right _ (List.mem_map_of_mem hd), rfl, trivial⟩

/-- `flush` wakes the pump once more. -/
theorem Sound.flushed (h : Sound settings w) (hclosing : w.closing ≠ some .claiming) (clock : Clock)
    (htime : ∀ asked, w.pump.passes < (w.flushed uuid settings clock).pump.passes →
      (w.flushed uuid settings clock).pump.pumping = some (.claiming asked) →
      ∀ flight ∈ w.flights, ∀ one ∈ w.queue.find flight.claimed.id, asked.now < one.due) :
    Sound settings (w.flushed uuid settings clock) := by
  have hpumped : Sound settings (w.pumped uuid settings (.wake 0 w.inFlight clock.now)) :=
    h.pumped nofun (fun t ht => ?_) htime
  · refine hpumped.at ?_ trivial
    rw [Worker.pumped]
    dsimp only
    split
    · split <;> exact hclosing
    · exact hclosing
  · rcases List.mem_cons.mp ht with rfl | ht
    · exact soon_nonneg
    · rw [List.mem_singleton.mp ht]
      exact clock.le_soon

theorem Sound.proceed (h : Sound settings w) (clock : Clock)
    (htime : ∀ asked, w.pump.passes < (w.proceed uuid settings clock).pump.passes →
      (w.proceed uuid settings clock).pump.pumping = some (.claiming asked) →
      ∀ flight ∈ w.flights, ∀ one ∈ w.queue.find flight.claimed.id, asked.now < one.due) :
    Sound settings (w.proceed uuid settings clock) := by
  rw [Worker.proceed] at htime ⊢
  cases hclosing : w.closing with
  | none => exact h
  | some closing =>
    rw [hclosing] at htime
    have hstanding := h.standing closing hclosing
    cases closing with
    | inserting =>
      dsimp only at htime ⊢
      by_cases hwaking : w.waking = 0
      · rw [if_pos hwaking] at htime ⊢
        have hheld : Sound settings { w with
            pump := PumpMove.run settings.pump w.pump (.hold clock.now)
            closing := some .inserting } := by
          refine ⟨h.accounted, h.stocked, h.dueBy.run (.hold clock.now) ?_ soon_nonneg,
            h.reminders, h.retrying,
            fun hbatch => ?_, fun closing heq => ?_⟩
          · simpa [PumpMove.instants] using clock.le_soon
          · refine (h.unread hbatch).imp id fun hclaiming => ?_
            cases hclosing.symm.trans hclaiming
          · cases heq
            trivial
        exact hheld.flushed (by simp) clock htime
      · rw [if_neg hwaking]
        exact h
    | idling =>
      dsimp only
      split
      · exact h.at (by simp [hclosing]) trivial
      · exact h
    | idled claimedNothing =>
      dsimp only at htime ⊢
      by_cases hcount : w.inFlight = 0
      · rw [if_pos hcount] at htime ⊢
        cases claimedNothing with
        | true => exact h.at (by simp [hclosing]) trivial
        | false => exact h.flushed (by simp [hclosing]) clock htime
      · rw [if_neg hcount]
        exact h.at (by simp [hclosing]) trivial
    | racing sending =>
      dsimp only at htime ⊢
      by_cases hany : ∃ lease ∈ sending, lease ∉ w.sending
      · rw [if_pos hany] at htime ⊢
        exact h.flushed (by simp [hclosing]) clock htime
      · rw [if_neg hany]
        exact h
    | flushed =>
      have hstopped : Sound settings { w with pump := PumpMove.run settings.pump w.pump .stop } :=
        ⟨h.accounted, h.stocked, h.dueBy.run .stop (fun _ ht => absurd ht List.not_mem_nil) soon_nonneg,
          h.reminders, h.retrying, h.unread, fun closing heq => by
            cases hclosing.symm.trans heq
            trivial⟩
      exact hstopped.at (fun heq => by cases hclosing.symm.trans heq) rfl
    | stopping =>
      dsimp only
      split
      case isTrue hpumping =>
        have hunasked : w.Unasked := fun asked hasked => by cases hpumping.symm.trans hasked
        exact h.at (by simp [hclosing]) ⟨hstanding, ⟨hunasked, fun _ hlease => hlease⟩⟩
      case isFalse => exact h
    | landing sending =>
      dsimp only
      split
      case isTrue hended => exact h.drained hclosing hended
      case isFalse => exact h
    | claiming => exact h.abandoned hclosing
    | abandoning =>
      dsimp only
      split
      case isTrue hflights =>
        obtain ⟨hstopped, hunasked, htaken⟩ := hstanding
        refine h.at (by simp [hclosing]) ⟨hstopped, hunasked, fun id => ?_⟩
        by_contra hne
        obtain ⟨flight, hflight, -⟩ := htaken id (Option.isSome_iff_ne_none.mpr hne)
        exact absurd (hflights ▸ hflight) List.not_mem_nil
      case isFalse => exact h
    | closed => exact h

/-! ### Every step -/

/-- **A step keeps it**, in time. -/
theorem Sound.run (h : Sound settings w) (move : Happening) (htime : InTime uuid settings w move) :
    Sound settings (move.run uuid settings w) := by
  have hclock : ∀ (clock : Clock), ∀ t ∈ [0, clock.now], t ≤ soon := by
    intro clock t ht
    rcases List.mem_cons.mp ht with rfl | ht
    · exact soon_nonneg
    · rw [List.mem_singleton.mp ht]
      exact clock.le_soon
  rw [InTime] at htime
  rw [Happening.run.eq_def] at htime ⊢
  cases move with
  | event given clock => exact h.listener given clock
  | inserted clock =>
    dsimp only at htime ⊢
    by_cases hwaking : w.waking = 0
    · rw [if_pos hwaking]
      exact h
    · rw [if_neg hwaking] at htime ⊢
      have h' : Sound settings { w with waking := w.waking - 1 } :=
        ⟨h.accounted, h.stocked, h.dueBy, h.reminders, h.retrying, h.unread, h.standing⟩
      exact h'.pumped nofun (hclock clock) htime
  | started => exact h.claimAnswered
  | loop clock => exact h.pumped nofun (hclock clock) htime
  | clear => exact h.pumped nofun (fun _ ht => absurd ht List.not_mem_nil) htime
  | tick clock => exact h.pumped nofun (hclock clock) htime
  | due i clock =>
    dsimp only at htime ⊢
    cases hi : w.reminders[i]? with
    | none => exact h
    | some at_ =>
      rw [hi] at htime
      have h' : Sound settings { w with reminders := w.reminders.eraseIdx i } :=
        ⟨h.accounted, h.stocked, h.dueBy,
        fun t ht => h.reminders t (List.mem_of_mem_eraseIdx ht), h.retrying,
          h.unread, h.standing⟩
      refine h'.pumped nofun (fun t ht => ?_) htime
      rcases List.mem_cons.mp ht with rfl | ht
      · exact h.reminders t (List.mem_of_getElem? hi)
      · rw [List.mem_singleton.mp ht]
        exact clock.le_soon
  | request i clock => exact h.request i _ _ clock.now
  | answer i failed clock => exact h.answer i failed _ clock
  | write i clock =>
    dsimp only
    cases hi : w.flights[i]? with
    | none => exact h
    | some flight => exact h.wrote hi clock
  | heartbeat i clock => exact h.heartbeat i clock
  | report i => exact h.report i
  | freed i clock =>
    dsimp only at htime ⊢
    by_cases hi : i < w.settled.length
    · rw [if_pos hi] at htime ⊢
      exact (h.freed i).pumped nofun (hclock clock) htime
    · rw [if_neg hi]
      exact h
  | close =>
    dsimp only
    split
    case isTrue => exact h
    case isFalse hopen => exact h.close (by simpa using hopen)
  | proceed clock => exact h.proceed clock htime

/-! ### What was inserted -/

theorem stored_pumped (w : Worker) (move : PumpMove) :
    (w.pumped uuid settings move).stored = w.stored := by
  rw [Worker.pumped]
  dsimp only
  split
  · split <;> rfl
  · rfl

theorem stored_writeOf (w : Workers) (i : ℕ) (flight : Flight) (up : Bool) (now : Time) :
    (writeOf settings.sender w i flight up now).stored = w.stored := by
  rw [writeOf]
  split
  case h_4 =>
    cases up with
    | false => rfl
    | true =>
      simp only [if_true]
      split <;> rfl
  all_goals rfl

theorem stored_attempted (w : Worker) (move : WorkerMove) :
    w.stored <+: (w.attempted uuid settings move).stored := by
  change w.stored <+: (move.run uuid settings.sender w.toWorkers).stored
  cases move with
  | insert => exact List.prefix_append ..
  | pump | sweep | drain | crash => exact List.prefix_rfl
  | request =>
    rw [WorkerMove.run]
    split
    · unfold requestOf
      split
      · exact List.prefix_rfl
      · split <;> exact List.prefix_rfl
    · exact List.prefix_rfl
  | write =>
    rw [WorkerMove.run]
    split
    · rw [stored_writeOf]
    · exact List.prefix_rfl
  | answer | heartbeat | report =>
    rw [WorkerMove.run]
    split <;> exact List.prefix_rfl

theorem stored_wrote (w : Worker) (i : ℕ) (flight : Flight) (clock : Clock) :
    (w.wrote settings i flight clock).stored = w.stored := by
  rw [Worker.wrote]
  dsimp only
  split
  · split <;> exact stored_writeOf ..
  · split <;> exact stored_writeOf ..
  · split <;> exact stored_writeOf ..
  · exact stored_writeOf ..
  · rfl

theorem stored_proceed (w : Worker) (clock : Clock) :
    (w.proceed uuid settings clock).stored = w.stored := by
  have hflushed : ∀ w : Worker, (w.flushed uuid settings clock).stored = w.stored := fun w =>
    stored_pumped w _
  rw [Worker.proceed]
  split
  case h_1 | h_2 | h_7 | h_10 => rfl
  case h_3 | h_6 =>
    split
    · exact hflushed _
    · rfl
  case h_5 =>
    split
    · split
      · rfl
      · exact hflushed _
    · rfl
  case h_4 | h_8 | h_9 | h_11 => split <;> rfl

/-- What was inserted stays so. -/
theorem stored_run (w : Worker) (move : Happening) :
    w.stored <+: (move.run uuid settings w).stored := by
  rw [Happening.run.eq_def]
  cases move with
  | event given clock =>
    change w.stored <+: (w.listener uuid settings given clock).stored
    rw [Worker.listener]
    split
    · exact List.prefix_rfl
    · dsimp only
      split_ifs
      · exact List.prefix_rfl
      · exact List.prefix_rfl
      · rw [Worker.accept]
        split
        · exact List.prefix_rfl
        · exact List.prefix_append ..
  | inserted clock =>
    dsimp only
    split
    · exact List.prefix_rfl
    · rw [stored_pumped]
  | freed i clock =>
    dsimp only
    split
    · rw [stored_pumped]
    · exact List.prefix_rfl
  | started =>
    change w.stored <+: (w.claimAnswered settings).stored
    rw [Worker.claimAnswered]
    split <;> exact List.prefix_rfl
  | loop | clear | tick => exact (stored_pumped w _) ▸ List.prefix_rfl
  | due i clock =>
    dsimp only
    split
    · rw [stored_pumped]
    · exact List.prefix_rfl
  | request | answer | heartbeat => exact stored_attempted w _
  | write =>
    dsimp only
    split
    · rw [stored_wrote]
    · exact List.prefix_rfl
  | report =>
    dsimp only
    split
    · exact stored_attempted w _
    · exact List.prefix_rfl
  | close =>
    dsimp only
    split <;> exact List.prefix_rfl
  | proceed clock =>
    dsimp only
    rw [stored_proceed]

end Steps

end Worker

/-! ## The outcome -/

/-- Every step in time. -/
def AllInTime (uuid : ℕ → Str) (settings : Settings) (moves : List Happening) : Prop :=
  ∀ before move after, moves = before ++ move :: after →
    Worker.InTime uuid settings (runWorker uuid settings before) move

theorem runWorker_concat (uuid : ℕ → Str) (settings : Settings) (moves : List Happening)
    (move : Happening) :
    runWorker uuid settings (moves ++ [move]) =
      move.run uuid settings (runWorker uuid settings moves) := by
  rw [runWorker, List.foldl_append]
  rfl

theorem sound_runWorker (uuid : ℕ → Str) (settings : Settings) (moves : List Happening)
    (h : AllInTime uuid settings moves) : Worker.Sound settings
    (runWorker uuid settings moves) := by
  induction moves using List.reverseRecOn with
  | nil => exact Worker.Sound.start
  | append_singleton moves move ih =>
    rw [runWorker_concat]
    refine (ih fun before move' after heq => ?_).run move (h moves move [] rfl)
    exact h before move' (after ++ [move]) (by rw [heq, List.append_assoc, List.cons_append])

theorem stored_runWorker (uuid : ℕ → Str) (settings : Settings) (before after : List Happening) :
    (runWorker uuid settings before).stored <+:
    (runWorker uuid settings (before ++ after)).stored := by
  induction after using List.reverseRecOn with
  | nil => rw [List.append_nil]
  | append_singleton after move ih =>
    rw [← List.append_assoc, runWorker_concat]
    exact ih.trans (Worker.stored_run _ move)

/-- A delivery was removed after its endpoint took it, or reported: one of the two, and once. -/
def OneOutcome (w : Worker) (id : Str) (round : ℕ) : Prop :=
  w.removed.count (id, round) = 1 ∧ (id, round) ∉ w.reports.map Prod.fst ∨
    (id, round) ∉ w.removed ∧ (w.reports.map Prod.fst).count (id, round) = 1

/-- **Every delivery accepted before `close()` has one outcome once it resolves**: whatever happens,
in whatever order. -/
theorem one_outcome (uuid : ℕ → Str) (settings : Settings) (before after : List Happening)
    (htime : AllInTime uuid settings (before ++ .close :: after))
    (hclosed : (runWorker uuid settings (before ++ .close :: after)).closing = some .closed) (id : Str)
    (round : ℕ) (hpos : 0 < round) (hstored : round ≤
      (runWorker uuid settings before).stored.count id) :
    OneOutcome (runWorker uuid settings (before ++ .close :: after)) id round := by
  have hsound := sound_runWorker uuid settings _ htime
  have hcount := (stored_runWorker uuid settings before (.close :: after)).sublist.count_le id
  generalize runWorker uuid settings (before ++ .close :: after) = w at hsound hclosed hcount ⊢
  have hone := hsound.accounted.settled id round hpos (hstored.trans hcount) fun hopen => by
    have hsome := hopen.2.1
    rw [(hsound.standing _ hclosed).2.2 id] at hsome
    cases hsome
  rw [Worker.outcomes, List.count_append] at hone
  rcases Nat.eq_zero_or_pos (w.removed.count (id, round)) with hzero | hremoved
  · exact Or.inr ⟨List.count_eq_zero.mp hzero, by omega⟩
  · exact Or.inl ⟨by omega, List.count_eq_zero.mp (by omega)⟩

/-! ### Closed while a retry waits -/

instance (uuid : ℕ → Str) (settings : Settings) (w : Worker) (move : Happening) :
    Decidable (w.InTime uuid settings move) :=
  decidable_of_iff
    (∀ asked ∈ (match (move.run uuid settings w).pump.pumping with
        | some (.claiming asked) => some asked
        | _ => none),
      w.pump.passes < (move.run uuid settings w).pump.passes →
      ∀ flight ∈ w.flights, ∀ one ∈ w.queue.find flight.claimed.id, asked.now < one.due) <| by
    refine ⟨fun h asked hlt hasked => h asked (by rw [hasked]; rfl) hlt,
      fun h asked hasked hlt => ?_⟩
    refine h asked hlt ?_
    split at hasked
    case h_1 heq =>
      cases hasked
      exact heq
    case h_2 => cases hasked

/-- A run is in time when each of its steps is, where it is taken. -/
theorem allInTime_of_take {uuid : ℕ → Str} {settings : Settings} {moves : List Happening}
    (h : ∀ n < moves.length, ∀ move ∈ moves[n]?,
      (runWorker uuid settings (moves.take n)).InTime uuid settings move) :
    AllInTime uuid settings moves := by
  rintro before move after rfl
  simpa using h before.length (by simp) move (by simp)

/-- One endpoint, and one retry after a second. -/
def oneRetry : Settings where
  targets := [⟨js "0", js "0", js "https://crm.example/", js "https://crm.example", none⟩]
  delays := [1000]
  concurrency := 64
  leaseMs := 40000
  pollMs := 1000
  delays_le := by decide
  leaseMs_le := by decide

/-- A millisecond of the first day. -/
def early (ms : Fin 86400000) : Clock where
  now := ms
  early := by
    have := ms.isLt
    unfold longest endOfTime
    omega

/-- Ada's sign-up. -/
def adaSignedUp : Given where
  id := .str (js "e1")
  type := .str (js "user.created")
  occurredAt := some ⟨0, Date.isMoment_zero⟩
  userId := .str (js "ada")
  userType := .str (js "patient")

/-- It is posted, and refused: its retry waits. -/
def refusedOnce : List Happening :=
  [.event adaSignedUp (early 0), .inserted (early 0), .started, .loop (early 0), .clear,
  .request 0 (early 0),
    .answer 0 (some ⟨some 500, none⟩) (early 5), .write 0 (early 5), .freed 0 (early 5)]

/-- `close()` finds nothing due, and gives it up. -/
def closing : List Happening :=
  [.proceed (early 6), .started, .loop (early 6), .clear, .proceed (early 6), .proceed (early 6),
    .proceed (early 6), .proceed (early 6), .proceed (early 6), .proceed (early 6),
    .write 0 (early 6),
    .report 0, .write 0 (early 6), .proceed (early 6)]

theorem one_outcome_retry_waiting :
    OneOutcome (runWorker decimal oneRetry (refusedOnce ++ .close :: closing))
    (js "e1:user.created:0") 1 :=
  one_outcome decimal oneRetry refusedOnce closing (allInTime_of_take (by decide +kernel))
    (by decide +kernel) (js "e1:user.created:0") 1 (by decide) (by decide +kernel)

end Janus.Webhooks
