import Janus.Webhooks.Leases
import Mathlib.Data.List.Perm.Subperm

/-!
# Webhooks/Attempts — how many requests one delivery gets

Any number of processes claim from one queue, post what they claimed and write back what came of it;
any of them may crash at any point, or find the queue down.  The number of a claim is counted as it
is made, and the schedule asked only once the request was answered.
-/

namespace Janus.Webhooks

open Js Insertion

/-! ## One claim, from its start to its end -/

inductive Why where
  | retriesRanOut
  | closed
  | endpointRemoved
deriving DecidableEq

/-- Why a delivery is given up, and what the last attempt got. -/
structure GivingUp where
  why : Why
  failure : Failure
deriving DecidableEq

/-- What a process does next with a delivery it claimed. -/
inductive Stage where
  /-- The request is to be made. -/
  | attempting
  /-- The request is out. -/
  | posted
  /-- Delivered: to be removed. -/
  | delivered
  | retrying (dueAt : Time) (failed : Failure)
  /-- The lease is to be extended, then the report made, then the delivery removed. -/
  | givingUp (attempts : ℤ) (reason : GivingUp)
  | reporting (attempts : ℤ) (reason : GivingUp)
  | reported
deriving DecidableEq

/-- A claim under way: `round` says which insertion of its id it is of. -/
structure Flight where
  claimed : QueuedDelivery
  round : ℕ
  stage : Stage
deriving DecidableEq

structure SenderSettings where
  delays : List ℕ
  leaseMs : ℕ

/-- Nothing an attempt got. -/
def noFailure : Failure := ⟨none, none⟩

/-- `abandon`: its claim is not counted. -/
def abandoned (claimed : QueuedDelivery) (why : Why) : Stage :=
  .givingUp ((claimed.attempts : ℤ) - 1) ⟨why, claimed.failed.getD noFailure⟩

/-- What a failed attempt leads to. -/
def afterFailure (settings : SenderSettings) (claimed : QueuedDelivery) (failed : Failure)
    (retries : Bool) (now : Time) : Stage :=
  match settings.delays[claimed.attempts - 1]? with
  | none => .givingUp claimed.attempts ⟨.retriesRanOut, failed⟩
  | some delay =>
    if retries then .retrying (now + delay) failed
    else .givingUp claimed.attempts ⟨.closed, failed⟩

/-! ## Every process on one queue -/

/-- The queue, the claims under way in any process, the ids in the order they were inserted, and
every request made. -/
structure Workers where
  queue : Queue
  flights : List Flight
  stored : List Str
  posts : List (QueuedDelivery × ℕ)

namespace Workers

/-- Nothing inserted yet. -/
def start : Workers := ⟨Queue.empty, [], [], []⟩

/-- Which insertion of the id the queue holds. -/
def round (w : Workers) (id : Str) : ℕ := w.stored.count id

/-- The deliveries a claim answered, under way. -/
def started (w : Workers) (stage : QueuedDelivery → Stage) (claims : List QueuedDelivery × Queue) :
    Workers :=
  { w with
    queue := claims.2
    flights := w.flights ++ claims.1.map fun d => ⟨d, w.round d.id, stage d⟩ }

/-- A claim under way that moved on. -/
def moved (w : Workers) (i : ℕ) (flight : Flight) (stage : Stage) : Workers :=
  { w with flights := w.flights.set i { flight with stage := stage } }

/-- …or ended, with what it wrote. -/
def landed (w : Workers) (i : ℕ) (queue : Queue) : Workers :=
  { w with queue := queue, flights := w.flights.eraseIdx i }

end Workers

inductive WorkerMove where
  | insert (event : UserEvent) (endpoints : List Str) (dueAt : Time)
  /-- The pump's claim: each delivery answered gets an attempt. -/
  | pump (endpoints : List Str) (now leaseUntil : Time) (limit : ℤ)
  /-- The sweeper's claim, and the last one of `close()`: each is given up. -/
  | sweep (known : List Str) (dueBefore leaseUntil : Time) (limit : ℤ)
  | drain (endpoints : List Str) (now leaseUntil : Time) (limit : ℤ)
  /-- The request of a claim: none without its endpoint's configuration, or a body. -/
  | request (i : ℕ) (configured : Bool) (body : Except Str Unit) (retries : Bool) (now : Time)
  | answer (i : ℕ) (failed : Option Failure) (retries : Bool) (now : Time)
  /-- The write a claim makes next, the queue answering or not. -/
  | write (i : ℕ) (up : Bool) (now : Time)
  | heartbeat (i : ℕ) (now : Time)
  | report (i : ℕ)
  | crash (i : ℕ)

section Workers

variable (uuid : ℕ → Str) (settings : SenderSettings)

/-- The request of a claim, or what stands for one. -/
def requestOf (w : Workers) (i : ℕ) (flight : Flight) (configured : Bool) (body : Except Str Unit)
    (retries : Bool) (now : Time) : Workers :=
  if !configured then w.moved i flight (abandoned flight.claimed .endpointRemoved)
  else
    match body with
    | .error name =>
      w.moved i flight (afterFailure settings flight.claimed ⟨none, some name⟩ retries now)
    | .ok () =>
      { w.moved i flight .posted with posts := w.posts ++ [(flight.claimed, flight.round)] }

/-- The write a claim makes next. -/
def writeOf (w : Workers) (i : ℕ) (flight : Flight) (up : Bool) (now : Time) : Workers :=
  let id := flight.claimed.id
  let lease := flight.claimed.lease
  match flight.stage with
  | .delivered | .reported =>
    w.landed i (if up then (deleteDelivery w.queue id lease).2 else w.queue)
  | .retrying dueAt failed =>
    w.landed i (if up then (scheduleRetry w.queue id lease dueAt failed).2 else w.queue)
  | .givingUp attempts reason =>
    let (held, queue) :=
      if up then extendLease w.queue id lease (now + settings.leaseMs) else (false, w.queue)
    if held then { w.moved i flight (.reporting attempts reason) with queue := queue }
    else w.landed i queue
  | _ => w

/-- One step of any process. -/
def WorkerMove.run (w : Workers) : WorkerMove → Workers
  | .insert event endpoints dueAt =>
    let queue := (insertDeliveries w.queue event endpoints dueAt).2
    { w with
      queue := queue
      stored := w.stored ++
        (queue.held.map Prod.fst).filter fun id => (w.queue.find id).isNone }
  | .pump endpoints now leaseUntil limit =>
    w.started (fun _ => .attempting) (claimDeliveries uuid w.queue endpoints now leaseUntil limit)
  | .sweep known dueBefore leaseUntil limit =>
    w.started (abandoned · .endpointRemoved)
      (claimOrphanedDeliveries uuid w.queue known dueBefore leaseUntil limit)
  | .drain endpoints now leaseUntil limit =>
    w.started (abandoned · .closed) (claimDeliveries uuid w.queue endpoints now leaseUntil limit)
  | .request i configured body retries now =>
    match w.flights[i]? with
    | some ⟨claimed, round, .attempting⟩ =>
      requestOf settings w i ⟨claimed, round, .attempting⟩ configured body retries now
    | _ => w
  | .answer i failed retries now =>
    match w.flights[i]? with
    | some ⟨claimed, round, .posted⟩ =>
      w.moved i ⟨claimed, round, .posted⟩ <| match failed with
        | none => .delivered
        | some failed => afterFailure settings claimed failed retries now
    | _ => w
  | .write i up now =>
    match w.flights[i]? with
    | some flight => writeOf settings w i flight up now
    | none => w
  | .heartbeat i now =>
    match w.flights[i]? with
    | some ⟨claimed, _, .reporting _ _⟩ =>
      { w with
        queue := (extendLease w.queue claimed.id claimed.lease (now + settings.leaseMs)).2 }
    | _ => w
  | .report i =>
    match w.flights[i]? with
    | some ⟨claimed, round, .reporting attempts reason⟩ =>
      w.moved i ⟨claimed, round, .reporting attempts reason⟩ .reported
    | _ => w
  | .crash i => { w with flights := w.flights.eraseIdx i }

/-- Every step in turn, from an empty queue. -/
def runWorkers (moves : List WorkerMove) : Workers :=
  moves.foldl (fun w move => move.run uuid settings w) .start

end Workers

/-! ## The numbers of the claims -/

section Numbered

/-- No write but a claim counts an attempt. -/
def KeepsAttempts (q q' : Queue) : Prop :=
  ∀ id one', q'.find id = some one' → ∃ one, q.find id = some one ∧ one'.attempts = one.attempts

theorem KeepsAttempts.refl (q : Queue) : KeepsAttempts q q := fun _ one' hone' => ⟨one', hone', rfl⟩

/-- A claim that made its request, or is to make it, is known by its number. -/
def numberOf (e : QueuedDelivery × ℕ) : Str × ℕ × ℕ := (e.1.id, e.2, e.1.attempts)

/-- The claims whose request is to be made. -/
def waiting (flights : List Flight) : List (QueuedDelivery × ℕ) :=
  (flights.filter (·.stage = .attempting)).map fun flight => (flight.claimed, flight.round)

/-- No two claims of one insertion have one number, and no number is past the attempts counted. -/
structure Numbered (w : Workers) : Prop where
  nodup : ((w.posts ++ waiting w.flights).map numberOf).Nodup
  counted : ∀ e ∈ w.posts ++ waiting w.flights, 1 ≤ e.1.attempts ∧ e.2 ≤ w.round e.1.id ∧
    (e.2 = w.round e.1.id → ∀ one, w.queue.find e.1.id = some one → e.1.attempts ≤ one.attempts)

theorem Numbered.start : Numbered .start where
  nodup := List.nodup_nil
  counted _ h := absurd h List.not_mem_nil

variable {w w' : Workers}

/-- Claims that end, or make their request, get no other number. -/
theorem Numbered.mono (h : Numbered w) (hstored : w'.stored = w.stored)
    (hqueue : KeepsAttempts w.queue w'.queue)
    (hsub : (w'.posts ++ waiting w'.flights).Subperm (w.posts ++ waiting w.flights)) :
    Numbered w' := by
  have hround : ∀ id, w'.round id = w.round id := fun id => congrArg (List.count id) hstored
  refine ⟨?_, fun e he => ?_⟩
  · obtain ⟨l, hperm, hl⟩ := hsub
    exact ((hperm.map numberOf).nodup_iff).mp (h.nodup.sublist (hl.map numberOf))
  · obtain ⟨hone, hle, hattempts⟩ := h.counted e (hsub.subset he)
    rw [hround]
    refine ⟨hone, hle, fun heq one' hone' => ?_⟩
    obtain ⟨one, hfind, hsame⟩ := hqueue _ one' hone'
    exact hsame ▸ hattempts heq one hfind

/-- A list at one of its places. -/
theorem split_at {α : Type*} {l : List α} {i : ℕ} {a : α} (h : l[i]? = some a) :
    ∃ l₁ l₂, l = l₁ ++ a :: l₂ ∧ (∀ b, l.set i b = l₁ ++ b :: l₂) ∧ l.eraseIdx i = l₁ ++ l₂ := by
  obtain ⟨hi, rfl⟩ := List.getElem?_eq_some_iff.mp h
  refine ⟨l.take i, l.drop (i + 1), ?_, fun b => ?_, List.eraseIdx_eq_take_drop_succ ..⟩
  · rw [List.getElem_cons_drop, List.take_append_drop]
  · rw [List.set_eq_take_append_cons_drop, if_pos hi]

theorem waiting_append (l₁ l₂ : List Flight) : waiting (l₁ ++ l₂) = waiting l₁ ++ waiting l₂ := by
  rw [waiting, List.filter_append, List.map_append, ← waiting, ← waiting]

theorem waiting_cons_sublist (l₁ l₂ : List Flight) (flight flight' : Flight)
    (h : flight'.stage ≠ .attempting) :
    (waiting (l₁ ++ flight' :: l₂)).Sublist (waiting (l₁ ++ flight :: l₂)) := by
  rw [waiting_append, waiting_append]
  refine List.Sublist.append_left ?_ _
  rw [waiting, List.filter_cons_of_neg (by simpa using h)]
  exact ((List.sublist_cons_self flight l₂).filter _).map _

/-- A claim moved on without a request, whatever it wrote. -/
theorem Numbered.moved (h : Numbered w) {i : ℕ} {flight : Flight} (hi : w.flights[i]? = some flight)
    {stage : Stage} (hstage : stage ≠ .attempting) {queue : Queue}
    (hqueue : KeepsAttempts w.queue queue) :
    Numbered { w.moved i flight stage with queue := queue } := by
  obtain ⟨l₁, l₂, hl, hset, -⟩ := split_at hi
  refine h.mono rfl hqueue (List.Sublist.subperm (List.Sublist.append_left ?_ _))
  rw [Workers.moved, hset, hl]
  exact waiting_cons_sublist l₁ l₂ flight _ hstage

theorem Numbered.landed (h : Numbered w) {i : ℕ} {queue : Queue}
    (hqueue : KeepsAttempts w.queue queue) :
    Numbered (w.landed i queue) :=
  h.mono rfl hqueue (List.Sublist.subperm
    (List.Sublist.append_left (((List.eraseIdx_sublist ..).filter _).map _) _))

/-- What a write under a lease keeps. -/
theorem keepsAttempts_put {q : Queue} {id : Str} {one one' : Held} (hone : q.find id = some one)
    (h : one'.attempts = one.attempts) : KeepsAttempts q (q.put id one') := by
  intro id' two htwo
  rw [Queue.find_put] at htwo
  split at htwo
  case isTrue heq =>
    cases htwo
    exact ⟨one, heq ▸ hone, h⟩
  case isFalse => exact ⟨two, htwo, rfl⟩

theorem keepsAttempts_extendLease (q : Queue) (id lease : Str) (until_ : Time) :
    KeepsAttempts q (extendLease q id lease until_).2 := by
  unfold extendLease
  split
  case h_1 => exact KeepsAttempts.refl q
  case h_2 one hone => exact keepsAttempts_put (leased_eq_some.mp hone).1 (by rfl)

theorem keepsAttempts_scheduleRetry (q : Queue) (id lease : Str) (dueAt : Time) (failed : Failure) :
    KeepsAttempts q (scheduleRetry q id lease dueAt failed).2 := by
  unfold scheduleRetry
  split
  case h_1 => exact KeepsAttempts.refl q
  case h_2 one hone => exact keepsAttempts_put (leased_eq_some.mp hone).1 (by rfl)

theorem keepsAttempts_deleteDelivery (q : Queue) (id lease : Str) :
    KeepsAttempts q (deleteDelivery q id lease).2 := by
  unfold deleteDelivery
  split
  case h_1 => exact KeepsAttempts.refl q
  case h_2 =>
    intro id' two htwo
    rw [Queue.find_remove] at htwo
    split at htwo
    case isTrue => cases htwo
    case isFalse => exact ⟨two, htwo, rfl⟩

/-- **A claim started has a number of its own**: one past every earlier one's. -/
theorem Numbered.started (h : Numbered w) {uuid : ℕ → Str} {at_ leaseUntil : Time}
    {claims : List QueuedDelivery × Queue}
    (hclaims : Claims uuid at_ leaseUntil w.queue claims.1 claims.2)
    (stage : QueuedDelivery → Stage) : Numbered (w.started stage claims) := by
  -- every claim answered is numbered past the attempts counted before it
  have hnew : ∀ d ∈ claims.1, ∃ one, w.queue.find d.id = some one ∧
    d.attempts = one.attempts + 1 := by
    intro d hd
    obtain ⟨one, hone, -, -, heq⟩ := hclaims.taken d hd
    exact ⟨one, hone, congrArg QueuedDelivery.attempts heq⟩
  have hqueue : ∀ id one', claims.2.find id = some one' →
      ∃ one, w.queue.find id = some one ∧ one.attempts ≤ one'.attempts := by
    intro id one' hone'
    by_cases hd : ∃ d ∈ claims.1, d.id = id
    · obtain ⟨d, hd, rfl⟩ := hd
      obtain ⟨one, hone, -, hclaimed, -⟩ := hclaims.taken d hd
      cases hone'.symm.trans hclaimed
      exact ⟨one, hone, Nat.le_succ _⟩
    · exact ⟨one', (hclaims.kept id fun d hmem heq => hd ⟨d, hmem, heq⟩).symm.trans hone',
        Nat.le_refl _⟩
  have hsub : (waiting (claims.1.map fun d => (⟨d, w.round d.id, stage d⟩ : Flight))).Sublist
      (claims.1.map fun d => (d, w.round d.id)) := by
    have hmap : (waiting (claims.1.map fun d => (⟨d, w.round d.id, stage d⟩ : Flight))).Sublist
        ((claims.1.map fun d => (⟨d, w.round d.id, stage d⟩ : Flight)).map
          fun flight => (flight.claimed, flight.round)) := List.filter_sublist.map _
    rwa [List.map_map] at hmap
  have hwaiting : waiting (w.started stage claims).flights = waiting w.flights ++
      waiting (claims.1.map fun d => (⟨d, w.round d.id, stage d⟩ : Flight)) := waiting_append ..
  refine ⟨?_, fun e he => ?_⟩
  · rw [hwaiting, ← List.append_assoc]
    refine List.Nodup.sublist ((List.Sublist.append_left hsub _).map numberOf) ?_
    change ((w.posts ++ waiting w.flights ++ _).map numberOf).Nodup
    rw [List.map_append, List.nodup_append]
    refine ⟨h.nodup, List.Nodup.of_map Prod.fst ?_, fun a ha b hb hab => ?_⟩
    · rw [List.map_map, List.map_map]
      exact hclaims.nodup
    · obtain ⟨e, he, rfl⟩ := List.mem_map.mp ha
      obtain ⟨_, hmem, rfl⟩ := List.mem_map.mp hb
      obtain ⟨d, hd, rfl⟩ := List.mem_map.mp hmem
      obtain ⟨hid, hround, hattempts⟩ : e.1.id = d.id ∧ e.2 = w.round d.id ∧
          e.1.attempts = d.attempts := by simpa [numberOf] using hab
      obtain ⟨one, hone, heq⟩ := hnew d hd
      have hle := (h.counted e he).2.2 (hid ▸ hround) one (hid ▸ hone)
      omega
  · rw [hwaiting, ← List.append_assoc] at he
    rcases List.mem_append.mp he with he | he
    · obtain ⟨hone, hle, hattempts⟩ := h.counted e he
      refine ⟨hone, hle, fun heq one' hone' => ?_⟩
      obtain ⟨one, hfind, hmono⟩ := hqueue _ one' hone'
      exact (hattempts heq one hfind).trans hmono
    · obtain ⟨d, hd, rfl⟩ := List.mem_map.mp (hsub.subset he)
      obtain ⟨one, -, -, hclaimed, heq⟩ := hclaims.taken d hd
      have hattempts : d.attempts = one.attempts + 1 := congrArg QueuedDelivery.attempts heq
      refine ⟨hattempts ▸ Nat.le_add_left .., Nat.le_refl _, fun _ one' hone' => ?_⟩
      cases hone'.symm.trans hclaimed
      exact Nat.le_of_eq hattempts

/-- An insertion counts the ids it adds, and no other. -/
theorem Numbered.insert (h : Numbered w) (event : UserEvent) (endpoints : List Str) (dueAt : Time) :
    Numbered
      { w with
        queue := (insertDeliveries w.queue event endpoints dueAt).2
        stored := w.stored ++
          ((insertDeliveries w.queue event endpoints dueAt).2.held.map Prod.fst).filter fun id =>
            (w.queue.find id).isNone } := by
  refine ⟨h.nodup, fun e he => ?_⟩
  obtain ⟨hone, hle, hattempts⟩ := h.counted e he
  rw [Workers.round] at hle hattempts ⊢
  rw [List.count_append]
  refine ⟨hone, Nat.le_add_right_of_le hle, fun heq one' hone' => ?_⟩
  rcases find_insertEach hone' with hfind | ⟨hnone, -, -⟩
  · exact hattempts (by omega) one' hfind
  · -- the id is held only since: it was inserted once more
    have hmem : e.1.id ∈ ((insertDeliveries w.queue event endpoints dueAt).2.held.map
        Prod.fst).filter fun id => (w.queue.find id).isNone :=
      List.mem_filter.mpr ⟨List.mem_map_of_mem (f := Prod.fst) (mem_of_get hone'),
        Option.isNone_iff_eq_none.mpr hnone⟩
    have := List.count_pos_iff.mpr hmem
    omega

/-- A request takes its claim's number with it. -/
theorem Numbered.post (h : Numbered w) {i : ℕ} {claimed : QueuedDelivery} {round : ℕ}
    (hi : w.flights[i]? = some ⟨claimed, round, .attempting⟩) :
    Numbered { w.moved i ⟨claimed, round, .attempting⟩ .posted with
      posts := w.posts ++ [(claimed, round)] } := by
  obtain ⟨l₁, l₂, hl, hset, -⟩ := split_at hi
  refine h.mono rfl (KeepsAttempts.refl _) (List.Perm.subperm ?_)
  have hposted : waiting (l₁ ++ ⟨claimed, round, .posted⟩ :: l₂) = waiting l₁ ++ waiting l₂ := by
    rw [waiting_append]
    rfl
  have hwaiting : waiting (l₁ ++ ⟨claimed, round, .attempting⟩ :: l₂) =
      waiting l₁ ++ (claimed, round) :: waiting l₂ := by
    rw [waiting_append]
    rfl
  change (w.posts ++ [(claimed, round)] ++ waiting (w.flights.set i _)).Perm _
  rw [hset, hposted, hl, hwaiting, List.append_assoc, List.singleton_append]
  exact List.Perm.append_left _ List.perm_middle.symm

end Numbered

/-! ## The bound -/

section Bound

variable {uuid : ℕ → Str} {settings : SenderSettings} {w : Workers}

theorem afterFailure_ne (claimed : QueuedDelivery) (failed : Failure) (retries : Bool)
    (now : Time) :
    afterFailure settings claimed failed retries now ≠ .attempting := by
  rw [afterFailure]
  split
  case h_1 => nofun
  case h_2 => split <;> nofun

theorem Numbered.request (h : Numbered w) {i : ℕ} {claimed : QueuedDelivery} {round : ℕ}
    (hi : w.flights[i]? = some ⟨claimed, round, .attempting⟩) (configured : Bool)
    (body : Except Str Unit) (retries : Bool) (now : Time) :
    Numbered (requestOf settings w i ⟨claimed, round, .attempting⟩ configured body retries now) := by
  unfold requestOf
  split
  case isTrue =>
    refine h.moved hi ?_ (KeepsAttempts.refl _)
    nofun
  case isFalse =>
    cases body with
    | error name =>
      refine h.moved hi ?_ (KeepsAttempts.refl _)
      exact afterFailure_ne _ _ _ _
    | ok u => exact h.post hi

/-- A write, or none while the queue is down. -/
theorem Numbered.write (h : Numbered w) {i : ℕ} {flight : Flight}
    (hi : w.flights[i]? = some flight) (up : Bool) (now : Time) :
    Numbered (writeOf settings w i flight up now) := by
  have hland : ∀ {queue}, KeepsAttempts w.queue queue →
      Numbered (w.landed i (if up then queue else w.queue)) := by
    intro queue hqueue
    cases up with
    | true => exact h.landed hqueue
    | false => exact h.landed (KeepsAttempts.refl _)
  rw [writeOf]
  split
  case h_1 | h_2 => exact hland (keepsAttempts_deleteDelivery _ _ _)
  case h_3 => exact hland (keepsAttempts_scheduleRetry _ _ _ _ _)
  case h_4 attempts reason =>
    have hextend := keepsAttempts_extendLease w.queue flight.claimed.id flight.claimed.lease
      (now + settings.leaseMs)
    cases up with
    | false => exact h.landed (KeepsAttempts.refl _)
    | true =>
      simp only [if_true]
      split
      · refine h.moved hi ?_ hextend
        nofun
      · exact h.landed hextend
  case h_5 => exact h

/-- Every step keeps the numbers. -/
theorem Numbered.run (h : Numbered w) (move : WorkerMove) :
    Numbered (move.run uuid settings w) := by
  cases move with
  | insert event endpoints dueAt => exact h.insert event endpoints dueAt
  | pump endpoints now leaseUntil limit => exact h.started (claim_spec w.queue endpoints) _
  | sweep known dueBefore leaseUntil limit => exact h.started (claim_spec w.queue _) _
  | drain endpoints now leaseUntil limit => exact h.started (claim_spec w.queue endpoints) _
  | request i configured body retries now =>
    rw [WorkerMove.run]
    split
    case h_1 claimed round hi => exact h.request hi configured body retries now
    case h_2 => exact h
  | answer i failed retries now =>
    rw [WorkerMove.run]
    split
    case h_1 claimed round hi =>
      refine h.moved hi ?_ (KeepsAttempts.refl _)
      cases failed with
      | none => nofun
      | some failed => exact afterFailure_ne _ _ _ _
    case h_2 => exact h
  | write i up now =>
    rw [WorkerMove.run]
    split
    case h_1 flight hi => exact h.write hi up now
    case h_2 => exact h
  | heartbeat i now =>
    rw [WorkerMove.run]
    split
    case h_1 => exact h.mono rfl (keepsAttempts_extendLease _ _ _ _) (List.Subperm.refl _)
    case h_2 => exact h
  | report i =>
    rw [WorkerMove.run]
    split
    case h_1 hi =>
      refine h.moved hi ?_ (KeepsAttempts.refl _)
      nofun
    case h_2 => exact h
  | crash i => exact h.landed (KeepsAttempts.refl _)

/-- …and so does every run. -/
theorem numbered_runWorkers (uuid : ℕ → Str) (settings : SenderSettings) (moves : List WorkerMove) :
    Numbered (runWorkers uuid settings moves) := by
  induction moves using List.reverseRecOn with
  | nil => exact Numbered.start
  | append_singleton moves move ih =>
    rw [runWorkers, List.foldl_append]
    exact ih.run move

/-- The schedule still has an attempt for a claim about to be sent: its number is no more than one
past the delays. -/
def Scheduled (settings : SenderSettings) (w : Workers) : WorkerMove → Prop
  | .request i _ _ _ _ => ∀ flight ∈ w.flights[i]?, flight.stage = .attempting →
    flight.claimed.attempts ≤ settings.delays.length + 1
  | _ => True

/-- …at every step of a run. -/
def AllScheduled (uuid : ℕ → Str) (settings : SenderSettings) (moves : List WorkerMove) : Prop :=
  ∀ before move after, moves = before ++ move :: after →
    Scheduled settings (runWorkers uuid settings before) move

theorem posts_writeOf (w : Workers) (i : ℕ) (flight : Flight) (up : Bool) (now : Time) :
    (writeOf settings w i flight up now).posts = w.posts := by
  rw [writeOf]
  split
  case h_4 =>
    cases up with
    | false => rfl
    | true =>
      simp only [if_true]
      split <;> rfl
  all_goals rfl

instance (settings : SenderSettings) (w : Workers) : (move : WorkerMove) →
    Decidable (Scheduled settings w move)
  | .request i _ _ _ _ => inferInstanceAs (Decidable (∀ flight ∈ w.flights[i]?,
    flight.stage = .attempting → flight.claimed.attempts ≤ settings.delays.length + 1))
  | .insert .. | .pump .. | .sweep .. | .drain .. | .answer .. | .write .. | .heartbeat ..
  | .report .. | .crash .. => isTrue trivial

/-- A run is on schedule when each of its steps is, where it is taken. -/
theorem allScheduled_of_take {moves : List WorkerMove} (h : ∀ n < moves.length, ∀ move ∈ moves[n]?,
    Scheduled settings (runWorkers uuid settings (moves.take n)) move) :
    AllScheduled uuid settings moves := by
  rintro before move after rfl
  simpa using h before.length (by simp) move (by simp)

/-- Only a request is ever added to the requests made. -/
theorem posts_run (move : WorkerMove) {e : QueuedDelivery × ℕ}
    (he : e ∈ (move.run uuid settings w).posts) : e ∈ w.posts ∨
      ∃ i configured body retries now, move = .request i configured body retries now ∧
        w.flights[i]? = some ⟨e.1, e.2, .attempting⟩ := by
  cases move with
  | request i configured body retries now =>
    rw [WorkerMove.run] at he
    split at he
    case h_1 claimed round hi =>
      cases configured with
      | false => exact Or.inl he
      | true =>
        cases body with
        | error name => exact Or.inl he
        | ok u =>
          rcases List.mem_append.mp he with he | he
          · exact Or.inl he
          · obtain rfl := List.mem_singleton.mp he
            exact Or.inr ⟨i, _, _, _, _, rfl, hi⟩
    case h_2 => exact Or.inl he
  | write i up now =>
    rw [WorkerMove.run] at he
    split at he
    case h_1 => exact Or.inl (posts_writeOf .. ▸ he)
    case h_2 => exact Or.inl he
  | answer | heartbeat | report =>
    rw [WorkerMove.run] at he
    split at he <;> exact Or.inl he
  | _ => exact Or.inl he

/-- Where the schedule is asked before each request, every request made was one of its attempts. -/
theorem posts_le (moves : List WorkerMove) (h : AllScheduled uuid settings moves) :
    ∀ e ∈ (runWorkers uuid settings moves).posts, e.1.attempts ≤ settings.delays.length + 1 := by
  induction moves using List.reverseRecOn with
  | nil => exact fun e he => absurd he List.not_mem_nil
  | append_singleton moves move ih =>
    intro e he
    rw [runWorkers, List.foldl_append] at he
    rcases posts_run move he with he | ⟨i, configured, body, retries, now, rfl, hi⟩
    · refine ih (fun before move' after heq => h before move' (after ++ [move]) ?_) e he
      rw [heq, List.append_assoc, List.cons_append]
    · exact h moves _ [] rfl _ hi rfl

/-- The requests made for one delivery: one insertion of its id. -/
def requestsOf (w : Workers) (id : Str) (round : ℕ) : List (QueuedDelivery × ℕ) :=
  w.posts.filter fun e => e.1.id = id ∧ e.2 = round

/-- **The requests of a delivery are bounded where the schedule is asked before each**: whoever
claims it, and whatever crashes, no more are made than the delays and one. -/
theorem requests_bounded (uuid : ℕ → Str) (settings : SenderSettings) (moves : List WorkerMove)
    (h : AllScheduled uuid settings moves) (id : Str) (round : ℕ) :
    (requestsOf (runWorkers uuid settings moves) id round).length ≤ settings.delays.length + 1 := by
  have hnumbered := numbered_runWorkers uuid settings moves
  have hle := posts_le moves h
  generalize runWorkers uuid settings moves = w at hnumbered hle
  have hmem : ∀ e ∈ requestsOf w id round, e ∈ w.posts ∧ e.1.id = id ∧ e.2 = round := fun e he => by
    obtain ⟨he, heq⟩ := List.mem_filter.mp he
    exact ⟨he, of_decide_eq_true heq⟩
  -- the numbers of its claims tell its requests apart, and are those of the schedule
  have hnodup : ((requestsOf w id round).map (·.1.attempts)).Nodup := by
    have hall : ((requestsOf w id round).map numberOf).Nodup :=
      hnumbered.nodup.sublist ((List.filter_sublist.trans (List.sublist_append_left ..)).map numberOf)
    refine List.Nodup.of_map (fun n => (id, round, n)) ?_
    rw [List.map_map]
    refine (List.map_congr_left fun e he => ?_) ▸ hall
    obtain ⟨-, hid, hround⟩ := hmem e he
    rw [numberOf, hid, hround]
    rfl
  have hsub : (requestsOf w id round).map (·.1.attempts) ⊆ List.range' 1
    (settings.delays.length + 1) := by
    intro n hn
    obtain ⟨e, he, rfl⟩ := List.mem_map.mp hn
    have hpost := (hmem e he).1
    have hpos := (hnumbered.counted e (List.mem_append_left _ hpost)).1
    have := hle e hpost
    rw [List.mem_range'_1]
    omega
  simpa using (List.subperm_of_subset hnodup hsub).length_le

/-! ### One crash after another -/

/-- One attempt for each delivery, and no retry. -/
def once : SenderSettings := ⟨[], 40000⟩

/-- A delivery claimed and posted by a process that crashes before the answer, then claimed and
posted again once the lease ran out. -/
def crashing : List WorkerMove :=
  [.insert signedUp [js "crm"] 0, .pump [js "crm"] 0 40000 64,
  .request 0 true (.ok ()) true 0, .crash 0,
    .pump [js "crm"] 40000 80000 64, .request 0 true (.ok ()) true 40000]

/-- **The schedule is not asked before a request**: a delivery of one attempt is posted twice. -/
theorem requests_not_bounded :
    ¬ ∀ (settings : SenderSettings) (moves : List WorkerMove) (id : Str) (round : ℕ),
      (requestsOf (runWorkers decimal settings moves) id round).length ≤
      settings.delays.length + 1 := by
  intro h
  have hposts : (requestsOf (runWorkers decimal once crashing) (js "e1:userCreated:crm") 1).length =
    2 := by
    decide +kernel
  have := hposts ▸ h once crashing (js "e1:userCreated:crm") 1
  exact absurd this (by decide)

/-- The same delivery, posted once and answered. -/
def answered : List WorkerMove :=
  [.insert signedUp [js "crm"] 0, .pump [js "crm"] 0 40000 64, .request 0 true (.ok ()) true 0,
    .answer 0 none true 10, .write 0 true 10]

/-- Its one attempt is on schedule. -/
theorem requests_bounded_once :
    (requestsOf (runWorkers decimal once answered) (js "e1:userCreated:crm") 1).length ≤ 1 :=
  requests_bounded decimal once answered (allScheduled_of_take (by decide +kernel))
    (js "e1:userCreated:crm") 1

end Bound

end Janus.Webhooks
