import Janus.Webhooks.Attempts
import Janus.Webhooks.Pump
import Janus.Webhooks.Signature

/-!
# Webhooks/Closing — one worker on a queue in memory, from its start to its close

Each step is what runs between two awaits: the listener, the pump, an attempt, a timer, `close()`. 
The queue does its work when it is asked, so a pass claims as it begins and starts what it claimed
later.
-/

namespace Janus.Webhooks

open Js

/-! ## The settings -/

/-- The last instant a `Date` holds. -/
def endOfTime : ℤ := 8640000000000000

/-- `Number.MAX_SAFE_INTEGER`. -/
def maxSafeInteger : ℕ := 9007199254740991

/-- The longest delay `setTimeout` keeps. -/
def longest : ℕ := 2147483647

/-- What `Date.now()` reads, so far from the last instant that every date reckoned from it is one.
-/
structure Clock where
  now : ℤ
  early : now + 2 * longest ≤ endOfTime

/-- An endpoint, as `webhooks()` keeps it. -/
structure Target where
  endpoint : Str
  key : Str
  url : Str
  origin : Str
  types : Option (List Str)
deriving DecidableEq

/-- The options checked, with no queue of the caller's. -/
structure Settings where
  targets : List Target
  delays : List ℕ
  concurrency : ℕ
  leaseMs : ℕ
  pollMs : ℕ
  delays_le : ∀ delay ∈ delays, delay ≤ longest
  leaseMs_le : leaseMs ≤ longest

namespace Settings

variable (settings : Settings)

def keys : List Str := settings.targets.map (·.key)

def sender : SenderSettings := ⟨settings.delays, settings.leaseMs⟩

def pump : PumpSettings where
  concurrency := settings.concurrency
  endpoints := settings.targets.length
  leaseMs := settings.leaseMs
  pollMs := settings.pollMs
  durable := false

end Settings

/-! ## The worker -/

/-- One event on its way to one endpoint. -/
structure Delivery where
  event : UserEvent
  url : Option Str
  endpoint : Str
  attempts : ℤ
deriving DecidableEq

/-- What `onGivingUp` is called with, and the origin a warning names. -/
structure Report where
  delivery : Delivery
  reason : GivingUp
  origin : Option Str
deriving DecidableEq

/-- Where `close()` stands: what it awaits, or does next. -/
inductive Closing where
  /-- The inserts under way. -/
  | inserting
  /-- `flush`: the pump, then what its last pass claimed; any attempt of these. -/
  | idling
  | idled (claimedNothing : Bool)
  | racing (sending : List Str)
  | flushed
  /-- The pump under way, then every attempt of these. -/
  | stopping
  | landing (sending : List Str)
  /-- `abandonWaiting`: its claim, then every report. -/
  | claiming
  | abandoning
  | closed
deriving DecidableEq

/-- One worker.  `batch` is what a claim took and nobody read yet; `waking`, the inserts whose wake
is to come; `settled`, the leases of the attempts that ended and still hold their slot.  The
outcomes are kept by delivery: an id, and which insertion of it. -/
structure Worker extends Workers where
  pump : PumpState
  batch : List QueuedDelivery
  waking : ℕ
  reminders : List Time
  settled : List Str
  closing : Option Closing
  removed : List (Str × ℕ)
  reports : List ((Str × ℕ) × Report)
  refused : List Report

section Worker

variable (uuid : ℕ → Str) (settings : Settings)

/-- `startWorker`. -/
def startWorker : Worker where
  toWorkers := .start
  pump := pumpOf settings.pump
  batch := []
  waking := 0
  reminders := []
  settled := []
  closing := none
  removed := []
  reports := []
  refused := []

namespace Worker

/-- The attempts that hold a slot, by the lease of each. -/
def sending (w : Worker) : List Str := w.flights.map (·.claimed.lease) ++ w.settled

/-- How many there are. -/
def inFlight (w : Worker) : ℕ := w.sending.length

/-- A call of the pump, or a step of its own: a pass that begins asks the queue, which claims at
once. -/
def pumped (w : Worker) (move : PumpMove) : Worker :=
  let pump := move.run settings.pump w.pump
  if w.pump.passes < pump.passes then
    match pump.pumping with
    | some (.claiming asked) =>
      let order := settings.keys.drop asked.first ++ settings.keys.take asked.first
      let claims := claimDeliveries uuid w.queue order asked.now asked.leaseUntil asked.free
      { w with pump := pump, queue := claims.2, batch := claims.1 }
    | _ => { w with pump := pump }
  else { w with pump := pump }

/-- A pass reads what it claimed, and starts each. -/
def claimAnswered (w : Worker) : Worker :=
  match w.pump.pumping with
  | some (.claiming _) =>
    { w with
      toWorkers := w.toWorkers.started (fun _ => .attempting) (w.batch, w.queue)
      pump := PumpMove.run settings.pump w.pump (.answer (some w.batch.length))
      batch := [] }
  | _ => w

/-- `accept`: one delivery per key, due now, and a wake to come. -/
def accept (w : Worker) (event : UserEvent) (keys : List Str) (clock : Clock) : Worker :=
  -- no `Map` holds so many: its `set` throws long before
  if maxSafeInteger ≤ (insertDeliveries w.queue event keys clock.now).2.held.length then w
  else
    { w with
      toWorkers := (WorkerMove.insert event keys clock.now).run uuid settings.sender w.toWorkers
      waking := w.waking + 1 }

/-- The listener: a mistake of the caller's is thrown back, and an event after `close()` is given
up. -/
def listener (w : Worker) (given : Given) (clock : Clock) : Worker :=
  match deliverable given (js "webhooks") with
  | .error _ => w
  | .ok event =>
    let to_ := settings.targets.filter fun target => target.types.all (event.type ∈ ·)
    if to_ = [] then w
    else if w.closing.isSome then
      let reports := to_.map fun target =>
        ⟨⟨event, some target.url, target.endpoint, 0⟩, ⟨.closed, noFailure⟩, some target.origin⟩
      { w with refused := w.refused ++ reports }
    else w.accept uuid settings event (to_.map (·.key)) clock

/-- The endpoint a delivery names. -/
def configuredTarget (claimed : QueuedDelivery) : Option Target :=
  settings.targets.find? fun one => one.key = claimed.endpoint

/-- How a delivery is reported. -/
def reportOf (claimed : QueuedDelivery) (attempts : ℤ) (reason : GivingUp) : Report :=
  let target := configuredTarget settings claimed
  { delivery :=
      { event := claimed.event
        url := target.map (·.url)
        endpoint := (target.map (·.endpoint)).getD claimed.endpoint
        attempts := attempts }
    reason := reason
    origin := target.map (·.origin) }

/-- A step of an attempt that leaves nothing behind but its own stage and the queue. -/
def attempted (w : Worker) (move : WorkerMove) : Worker :=
  { w with toWorkers := move.run uuid settings.sender w.toWorkers }

/-- An attempt that ended holds its slot until `freed`; what `abandonWaiting` gives up holds none.
-/
def ended (w : Worker) (flight : Flight) : Worker :=
  { w with
    settled := if w.closing = some .abandoning then w.settled else w.settled ++
    [flight.claimed.lease] }

/-- The write an attempt makes next, and what is known of it. -/
def wrote (w : Worker) (i : ℕ) (flight : Flight) (clock : Clock) : Worker :=
  let id := flight.claimed.id
  let lease := flight.claimed.lease
  let w' := { w with toWorkers := writeOf settings.sender w.toWorkers i flight true clock.now }
  match flight.stage with
  | .delivered =>
    if (deleteDelivery w.queue id lease).1 then
      { w'.ended flight with removed := w.removed ++ [(id, flight.round)] }
    else w'.ended flight
  | .retrying dueAt failed =>
    if (scheduleRetry w.queue id lease dueAt failed).1 ∧ w.closing = none then
      { w'.ended flight with reminders := w.reminders ++ [dueAt] }
    else w'.ended flight
  | .givingUp _ _ => if w'.flights.length < w.flights.length then w'.ended flight else w'
  | .reported => w'.ended flight
  | _ => w

/-- `flush`, when it wakes the pump once more. -/
def flushed (w : Worker) (clock : Clock) : Worker :=
  { w.pumped uuid settings (.wake 0 w.inFlight clock.now) with closing := some .idling }

/-- `close()`, past what it awaits. -/
def proceed (w : Worker) (clock : Clock) : Worker :=
  match w.closing with
  | none | some .closed => w
  | some .inserting =>
    if w.waking = 0 then
      { w with pump := PumpMove.run settings.pump w.pump (.hold clock.now) }.flushed uuid
      settings clock
    else w
  | some .idling =>
    if w.pump.pumping = none then { w with closing := some (.idled w.pump.claimedNothing) } else w
  | some (.idled claimedNothing) =>
    if w.inFlight = 0 then
      if claimedNothing then { w with closing := some .flushed } else w.flushed uuid settings clock
    else { w with closing := some (.racing w.sending) }
  | some (.racing sending) =>
    if ∃ lease ∈ sending, lease ∉ w.sending then w.flushed uuid settings clock else w
  | some .flushed =>
    { w with pump := PumpMove.run settings.pump w.pump .stop, closing := some .stopping }
  | some .stopping =>
    if w.pump.pumping = none then { w with closing := some (.landing w.sending) } else w
  | some (.landing sending) =>
    if ∀ lease ∈ sending, lease ∉ w.sending then
      let claims := claimDeliveries uuid w.queue settings.keys endOfTime endOfTime maxSafeInteger
      { w with queue := claims.2, batch := claims.1, closing := some .claiming }
    else w
  | some .claiming =>
    { w with
      toWorkers := w.toWorkers.started (abandoned · .closed) (w.batch, w.queue)
      batch := []
      closing := some .abandoning }
  | some .abandoning => if w.flights = [] then { w with closing := some .closed } else w

end Worker

/-- Everything that happens to a worker. -/
inductive Happening where
  | event (given : Given) (clock : Clock)
  /-- An insert was answered: it wakes the pump. -/
  | inserted (clock : Clock)
  /-- The claim of the pass under way was answered; its loop goes on; its run is forgotten. -/
  | started
  | loop (clock : Clock)
  | clear
  /-- The pump's timer goes off, or a reminder. -/
  | tick (clock : Clock)
  | due (i : ℕ) (clock : Clock)
  /-- The steps of an attempt: `failed` is what the endpoint answered, or the request's failure. -/
  | request (i : ℕ) (clock : Clock)
  | answer (i : ℕ) (failed : Option Failure) (clock : Clock)
  | write (i : ℕ) (clock : Clock)
  | heartbeat (i : ℕ) (clock : Clock)
  | report (i : ℕ)
  /-- An attempt that ended frees its slot. -/
  | freed (i : ℕ) (clock : Clock)
  | close
  | proceed (clock : Clock)

open Worker in
/-- One step. -/
def Happening.run (w : Worker) : Happening → Worker
  | .event given clock => w.listener uuid settings given clock
  | .inserted clock =>
    if w.waking = 0 then w
    else { w with waking := w.waking - 1 }.pumped uuid settings (.wake 0 w.inFlight clock.now)
  | .started => w.claimAnswered settings
  | .loop clock => w.pumped uuid settings (.loop w.inFlight clock.now)
  | .clear => w.pumped uuid settings .clear
  | .tick clock => w.pumped uuid settings (.tick w.inFlight clock.now)
  | .due i clock =>
    match w.reminders[i]? with
    | some at_ =>
      { w with reminders := w.reminders.eraseIdx i }.pumped uuid settings
        (.wake at_ w.inFlight clock.now)
    | none => w
  | .request i clock =>
    let configured := (w.flights[i]?.bind fun flight => configuredTarget settings flight.claimed).isSome
    w.attempted uuid settings (.request i configured (.ok ()) w.closing.isNone clock.now)
  | .answer i failed clock =>
    w.attempted uuid settings (.answer i failed w.closing.isNone clock.now)
  | .write i clock =>
    match w.flights[i]? with
    | some flight => w.wrote settings i flight clock
    | none => w
  | .heartbeat i clock => w.attempted uuid settings (.heartbeat i clock.now)
  | .report i =>
    match w.flights[i]? with
    | some ⟨claimed, round, .reporting attempts reason⟩ =>
      { w.attempted uuid settings (.report i) with
        reports := w.reports ++ [((claimed.id, round), reportOf settings claimed attempts reason)] }
    | _ => w
  | .freed i clock =>
    if i < w.settled.length then
      let w := { w with settled := w.settled.eraseIdx i }
      w.pumped uuid settings (.freed w.inFlight clock.now)
    else w
  | .close =>
    if w.closing.isSome then w
    else
      { w with
        closing := some .inserting
        pump := PumpMove.run settings.pump w.pump .quiet
        reminders := [] }
  | .proceed clock => w.proceed uuid settings clock

/-- A worker, after these. -/
def runWorker (moves : List Happening) : Worker :=
  moves.foldl (fun w move => move.run uuid settings w) (startWorker settings)

end Worker

end Janus.Webhooks
