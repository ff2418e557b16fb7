import Janus.Webhooks.Queue
import Mathlib.Data.List.Induction

/-!
# Webhooks/Leases — the lease protocol of the queue

Whatever any number of processes ask of one queue, in any order and with any clocks, a delivery has
one lease at a time: the one its last claim gave it, and only who names it moves or removes the
delivery.
-/

namespace Janus.Webhooks

open Js Insertion

/-! ## Runs of the queue -/

inductive QueueOp where
  | insertDeliveries (event : UserEvent) (endpoints : List Str) (dueAt : Time)
  | claimDeliveries (endpoints : List Str) (now leaseUntil : Time) (limit : ℤ)
  | claimOrphanedDeliveries (known : List Str) (dueBefore leaseUntil : Time) (limit : ℤ)
  | extendLease (id lease : Str) (until_ : Time)
  | scheduleRetry (id lease : Str) (dueAt : Time) (failed : Failure)
  | deleteDelivery (id lease : Str)

inductive QueueAnswer where
  | inserted (n : ℕ)
  | claimed (deliveries : List QueuedDelivery)
  | done (held : Bool)

/-- What a claim answered, if it is one. -/
def QueueAnswer.deliveries : QueueAnswer → List QueuedDelivery
  | .claimed deliveries => deliveries
  | _ => []

/-- The lease a write names. -/
def QueueOp.names : QueueOp → Option (Str × Str)
  | .extendLease id lease _ | .scheduleRetry id lease _ _ | .deleteDelivery id lease =>
    some (id, lease)
  | _ => none

/-- When a claim asks what is due. -/
def QueueOp.dueAt : QueueOp → Option Time
  | .claimDeliveries _ now _ _ => some now
  | .claimOrphanedDeliveries _ dueBefore _ _ => some dueBefore
  | _ => none

/-- When the leases a claim gives end. -/
def QueueOp.leaseUntil : QueueOp → Option Time
  | .claimDeliveries _ _ leaseUntil _ => some leaseUntil
  | .claimOrphanedDeliveries _ _ leaseUntil _ => some leaseUntil
  | _ => none

/-- Which endpoints a claim is for, and up to how many deliveries. -/
def QueueOp.claims : QueueOp → Option ((Str → Prop) × ℤ)
  | .claimDeliveries endpoints _ _ limit => some ((· ∈ endpoints), limit)
  | .claimOrphanedDeliveries known _ _ limit => some ((· ∉ known), limit)
  | _ => none

/-- Which ids an insert is of. -/
def QueueOp.Inserts (op : QueueOp) (id : Str) : Prop :=
  ∃ event endpoints dueAt, op = .insertDeliveries event endpoints dueAt ∧
    ∃ endpoint ∈ endpoints, deliveryId event endpoint = id

section Run

variable (uuid : ℕ → Str)

/-- One operation. -/
def QueueOp.run (q : Queue) : QueueOp → QueueAnswer × Queue
  | .insertDeliveries event endpoints dueAt =>
    let (n, q) := Webhooks.insertDeliveries q event endpoints dueAt
    (.inserted n, q)
  | .claimDeliveries endpoints now leaseUntil limit =>
    let (deliveries, q) := Webhooks.claimDeliveries uuid q endpoints now leaseUntil limit
    (.claimed deliveries, q)
  | .claimOrphanedDeliveries known dueBefore leaseUntil limit =>
    let (deliveries, q) := Webhooks.claimOrphanedDeliveries uuid q known dueBefore leaseUntil limit
    (.claimed deliveries, q)
  | .extendLease id lease until_ =>
    let (held, q) := Webhooks.extendLease q id lease until_
    (.done held, q)
  | .scheduleRetry id lease dueAt failed =>
    let (held, q) := Webhooks.scheduleRetry q id lease dueAt failed
    (.done held, q)
  | .deleteDelivery id lease =>
    let (held, q) := Webhooks.deleteDelivery q id lease
    (.done held, q)

/-- What was asked and answered so far, in order. -/
abbrev History := List (QueueOp × QueueAnswer)

/-- Every operation in turn, on a new queue. -/
def runQueue (ops : List QueueOp) : Queue × History :=
  ops.foldl (fun r op => ((op.run uuid r.1).2, r.2 ++ [(op, (op.run uuid r.1).1)]))
  (Queue.empty, [])

end Run

/-- Every delivery a claim answered, in order. -/
def History.answered (history : History) : List QueuedDelivery :=
  history.flatMap fun e => e.2.deliveries

/-- One entry more, for the leases given to a delivery since it was inserted. -/
def addLeases (id : Str) (leases : List Str) : QueueOp × QueueAnswer → List Str
  | (.deleteDelivery id' _, .done true) => if id' = id then [] else leases
  | (_, answer) => leases ++ ((answer.deliveries.filter (·.id = id)).map (·.lease))

/-- The leases given to a delivery since it was inserted, one a claim. -/
def History.leasesOf (history : History) (id : Str) : List Str := history.foldl (addLeases id) []

section Invariant

variable {uuid : ℕ → Str}

/-- The last claim of a delivery gave it the lease it holds, and every claim was counted. -/
structure Leased (uuid : ℕ → Str) (q : Queue) (history : History) : Prop where
  leases : history.answered.map (·.lease) = (List.range q.drawn).map uuid
  absent : ∀ id, q.find id = none → history.leasesOf id = []
  attempts : ∀ id one, q.find id = some one → one.attempts = (history.leasesOf id).length
  last : ∀ id lease, Current q id lease → (history.leasesOf id).getLast? = some lease

theorem answered_concat (history : History) (e : QueueOp × QueueAnswer) :
    (history ++ [e]).answered = history.answered ++ e.2.deliveries := by
  rw [History.answered, List.flatMap_append, List.flatMap_singleton, ← History.answered]

theorem leasesOf_concat (history : History) (e : QueueOp × QueueAnswer) (id : Str) :
    (history ++ [e]).leasesOf id = addLeases id (history.leasesOf id) e := by
  rw [History.leasesOf, List.foldl_append, List.foldl_cons, List.foldl_nil, ← History.leasesOf]

/-- An operation that claims nothing and removes nothing adds no lease. -/
theorem addLeases_of_nil {id : Str} {leases : List Str} {op : QueueOp} {answer : QueueAnswer}
    (hanswer : answer.deliveries = [])
    (hop : ∀ id' lease, op = .deleteDelivery id' lease → answer = .done true → id' ≠ id) :
    addLeases id leases (op, answer) = leases := by
  unfold addLeases
  split
  case h_1 id' lease heq =>
    cases heq
    exact if_neg (hop _ _ rfl rfl)
  case h_2 heq =>
    cases heq
    rw [hanswer, List.filter_nil, List.map_nil, List.append_nil]

/-- A write that keeps the attempts and moves no lease but to none. -/
theorem Leased.write {q q' : Queue} {history : History} (h : Leased uuid q history)
    {op : QueueOp} {answer : QueueAnswer} (hdrawn : q'.drawn = q.drawn)
    (hanswer : answer.deliveries = [])
    (hop : ∀ id lease, op = .deleteDelivery id lease → answer = .done true → q'.find id = none)
    (hnone : ∀ id, q'.find id = none → q.find id = none ∨
      ∃ lease, op = .deleteDelivery id lease ∧ answer = .done true)
    (hsome : ∀ id one', q'.find id = some one' →
      (∃ one, q.find id = some one ∧ one'.attempts = one.attempts ∧
        (one'.lease = none ∨ one'.lease = one.lease)) ∨
      q.find id = none ∧ one'.attempts = 0 ∧ one'.lease = none) :
    Leased uuid q' (history ++ [(op, answer)]) := by
  have hheld : ∀ id one', q'.find id = some one' →
      (history ++ [(op, answer)]).leasesOf id = history.leasesOf id := by
    intro id one' hone'
    rw [leasesOf_concat]
    refine addLeases_of_nil hanswer fun id' lease heq hdone hid => ?_
    rw [← hid, hop id' lease heq hdone] at hone'
    cases hone'
  constructor
  · rw [answered_concat, hanswer, List.append_nil, hdrawn]
    exact h.leases
  · intro id hid
    rw [leasesOf_concat]
    rcases hnone id hid with hid | ⟨lease, rfl, rfl⟩
    · rw [h.absent id hid]
      unfold addLeases
      split
      · exact ite_self _
      · rename_i heq
        cases heq
        rw [hanswer]
        rfl
    · exact if_pos rfl
  · intro id one' hone'
    rw [hheld id one' hone']
    rcases hsome id one' hone' with ⟨one, hone, hattempts, -⟩ | ⟨hnew, hattempts, -⟩
    · rw [hattempts, h.attempts id one hone]
    · rw [hattempts, h.absent id hnew, List.length_nil]
  · rintro id lease ⟨one', hone', hlease⟩
    rw [hheld id one' hone']
    rcases hsome id one' hone' with ⟨one, hone, -, hnone | hsame⟩ | ⟨-, -, hnone⟩
    · cases hnone.symm.trans hlease
    · exact h.last id lease ⟨one, hone, hsame.symm.trans hlease⟩
    · cases hnone.symm.trans hlease

/-- A claim answers a delivery once. -/
theorem filter_id_eq {answered : List QueuedDelivery} (h : (answered.map (·.id)).Nodup)
    {d : QueuedDelivery} (hd : d ∈ answered) : answered.filter (·.id = d.id) = [d] := by
  induction answered with
  | nil => exact absurd hd List.not_mem_nil
  | cons e answered ih =>
    rw [List.map_cons, List.nodup_cons] at h
    rcases List.mem_cons.mp hd with rfl | hd
    · rw [List.filter_cons_of_pos (by simp), List.filter_eq_nil_iff.mpr fun e he heq =>
        h.1 (List.mem_map.mpr ⟨e, he, of_decide_eq_true heq⟩)]
    · have hne : e.id ≠ d.id := fun heq => h.1 (List.mem_map.mpr ⟨d, hd, heq.symm⟩)
      rw [List.filter_cons_of_neg (by simpa using hne), ih h.2 hd]

/-- A claim counts one more, and gives its own lease. -/
theorem Leased.claim {q q' : Queue} {history : History} (h : Leased uuid q history)
    {op : QueueOp} {at_ leaseUntil : Time} {answered : List QueuedDelivery}
    (hclaims : Claims uuid at_ leaseUntil q answered q') :
    Leased uuid q' (history ++ [(op, .claimed answered)]) := by
  have hleases : ∀ id, (history ++ [(op, QueueAnswer.claimed answered)]).leasesOf id =
      history.leasesOf id ++ (answered.filter (·.id = id)).map (·.lease) := by
    intro id
    rw [leasesOf_concat]
    unfold addLeases
    split
    · rename_i heq
      cases heq
    · rename_i heq
      cases heq
      rfl
  -- a delivery either answered by this claim, or left as it was
  have hcases : ∀ id, (∃ d ∈ answered, d.id = id ∧
      (history ++ [(op, QueueAnswer.claimed answered)]).leasesOf id =
      history.leasesOf id ++ [d.lease]) ∨
      q'.find id = q.find id ∧
        (history ++ [(op, QueueAnswer.claimed answered)]).leasesOf id = history.leasesOf id := by
    intro id
    rw [hleases]
    by_cases hd : ∃ d ∈ answered, d.id = id
    · obtain ⟨d, hd, rfl⟩ := hd
      exact Or.inl ⟨d, hd, rfl, by rw [filter_id_eq hclaims.nodup hd]; rfl⟩
    · refine Or.inr ⟨hclaims.kept id fun d hmem heq => hd ⟨d, hmem, heq⟩, ?_⟩
      rw [List.filter_eq_nil_iff.mpr fun d hmem heq => hd ⟨d, hmem, of_decide_eq_true heq⟩,
        List.map_nil, List.append_nil]
  constructor
  · rw [answered_concat, List.map_append, h.leases, hclaims.drawn]
    change _ ++ answered.map (·.lease) = _
    have hrange : List.range' 0 q.drawn ++ List.range' q.drawn answered.length =
        List.range' 0 (q.drawn + answered.length) := by
      simpa using List.range'_append_1 (s := 0) (m := q.drawn) (n := answered.length)
    rw [hclaims.leases, ← List.map_append, List.range_eq_range', List.range_eq_range', hrange]
  · intro id hid
    rcases hcases id with ⟨d, hd, rfl, -⟩ | ⟨hkept, hsame⟩
    · obtain ⟨one, -, -, hone, -⟩ := hclaims.taken d hd
      cases hid.symm.trans hone
    · rw [hsame, h.absent id (hkept.symm.trans hid)]
  · intro id one hone
    rcases hcases id with ⟨d, hd, rfl, hlease⟩ | ⟨hkept, hsame⟩
    · obtain ⟨one', hone', -, hclaimed, -⟩ := hclaims.taken d hd
      cases hone.symm.trans hclaimed
      rw [hlease, List.length_append, List.length_singleton, ← h.attempts d.id one' hone']
      rfl
    · rw [hsame, h.attempts id one (hkept.symm.trans hone)]
  · rintro id lease ⟨one, hone, hlease⟩
    rcases hcases id with ⟨d, hd, rfl, hleases⟩ | ⟨hkept, hsame⟩
    · obtain ⟨one', -, -, hclaimed, -⟩ := hclaims.taken d hd
      cases hone.symm.trans hclaimed
      rw [hleases, List.getLast?_concat]
      exact hlease
    · rw [hsame]
      exact h.last id lease ⟨one, hkept.symm.trans hone, hlease⟩

/-- A write that names the lease held: it leaves one delivery in another's place. -/
theorem Leased.put {q : Queue} {history : History} (h : Leased uuid q history) {id : Str}
    {one one' : Held} (hone : q.find id = some one) (hattempts : one'.attempts = one.attempts)
    (hlease : one'.lease = none ∨ one'.lease = one.lease) {op : QueueOp}
    (hop : ∀ id lease, op ≠ .deleteDelivery id lease) :
    Leased uuid (q.put id one') (history ++ [(op, .done true)]) := by
  refine h.write rfl rfl (fun id' lease heq => absurd heq (hop id' lease)) (fun id' hid' => ?_)
    fun id' one'' hone'' => ?_
  · rw [Queue.find_put] at hid'
    split at hid'
    · cases hid'
    · exact Or.inl hid'
  · rw [Queue.find_put] at hone''
    split at hone''
    case isTrue heq =>
      cases hone''
      exact Or.inl ⟨one, heq ▸ hone, hattempts, hlease⟩
    case isFalse => exact Or.inl ⟨one'', hone'', rfl, Or.inr rfl⟩

/-- A write refused moves nothing. -/
theorem Leased.refused {q : Queue} {history : History} (h : Leased uuid q history) {op : QueueOp} :
    Leased uuid q (history ++ [(op, .done false)]) :=
  h.write rfl rfl (fun _ _ _ heq => nomatch heq) (fun _ hid => Or.inl hid)
    fun _ one hone => Or.inl ⟨one, hone, rfl, Or.inr rfl⟩

theorem Leased.empty : Leased uuid Queue.empty [] where
  leases := rfl
  absent _ _ := rfl
  attempts _ _ h := nomatch h
  last := fun _ _ ⟨_, h, _⟩ => nomatch h

/-- Every operation keeps it. -/
theorem Leased.run {q : Queue} {history : History} (h : Leased uuid q history) (op : QueueOp) :
    Leased uuid (op.run uuid q).2 (history ++ [(op, (op.run uuid q).1)]) := by
  cases op with
  | insertDeliveries event endpoints dueAt =>
    refine h.write drawn_insertEach rfl (fun _ _ heq => nomatch heq) (fun id hid => Or.inl ?_)
      fun id one hone => ?_
    · by_contra hheld
      obtain ⟨one, hone⟩ := Option.ne_none_iff_exists'.mp hheld
      cases hid.symm.trans (find_insertEach_of_some hone)
    · rcases find_insertEach hone with hone | hnew
      · exact Or.inl ⟨one, hone, rfl, Or.inr rfl⟩
      · exact Or.inr hnew
  | claimDeliveries endpoints now leaseUntil limit => exact h.claim (claim_spec q endpoints)
  | claimOrphanedDeliveries known dueBefore leaseUntil limit => exact h.claim (claim_spec q _)
  | extendLease id lease until_ =>
    simp only [QueueOp.run, extendLease]
    cases hleased : leased q id lease with
    | none => exact h.refused
    | some one =>
      refine h.put (leased_eq_some.mp hleased).1 ?_ ?_ fun _ _ h => nomatch h
      · rfl
      · exact Or.inr rfl
  | scheduleRetry id lease dueAt failed =>
    simp only [QueueOp.run, scheduleRetry]
    cases hleased : leased q id lease with
    | none => exact h.refused
    | some one =>
      refine h.put (leased_eq_some.mp hleased).1 ?_ ?_ fun _ _ h => nomatch h
      · rfl
      · exact Or.inl rfl
  | deleteDelivery id lease =>
    simp only [QueueOp.run, deleteDelivery]
    cases hleased : leased q id lease with
    | none => exact h.refused
    | some one =>
      refine h.write rfl rfl (fun id' lease' heq _ => ?_) (fun id' hid' => ?_) fun id'
        one' hone' => ?_
      · cases heq
        rw [Queue.find_remove, if_pos rfl]
      · by_cases heq : id = id'
        · exact Or.inr ⟨lease, by rw [heq], rfl⟩
        · rw [Queue.find_remove, if_neg heq] at hid'
          exact Or.inl hid'
      · rw [Queue.find_remove] at hone'
        split at hone'
        · cases hone'
        · exact Or.inl ⟨one', hone', rfl, Or.inr rfl⟩

/-- …and so does every run. -/
theorem leased_runQueue (uuid : ℕ → Str) (ops : List QueueOp) :
    Leased uuid (runQueue uuid ops).1 (runQueue uuid ops).2 := by
  induction ops using List.reverseRecOn with
  | nil => exact Leased.empty
  | append_singleton ops op ih =>
    rw [runQueue, List.foldl_append]
    exact ih.run op

end Invariant

/-! ## The protocol -/

/-- **The lease protocol**: what one more operation does after any run. -/
structure LeaseProtocol (q : Queue) (history : History) (op : QueueOp) (answer : QueueAnswer)
    (q' : Queue) : Prop where
  /-- A delivery leaves the queue only by a deletion that names its lease. -/
  leaves : ∀ id one, q.find id = some one → q'.find id = none →
    ∃ lease, op = .deleteDelivery id lease ∧ one.lease = some lease
  /-- A claim answers a delivery once, when it is due, and gives it a lease nobody had. -/
  once : (answer.deliveries.map (·.id)).Nodup
  due : ∀ d ∈ answer.deliveries, ∃ one at_, q.find d.id = some one ∧ op.dueAt = some at_ ∧
    one.due ≤ at_
  renewed : ∀ d ∈ answer.deliveries, Current q' d.id d.lease ∧
    d.lease ∉ history.answered.map (·.lease)
  /-- Every lease given before is stale after it, and a stale lease stays so. -/
  stale : ∀ d ∈ answer.deliveries, ∀ d' ∈ history.answered, d'.id = d.id →
    ¬ Current q' d'.id d'.lease
  stays_stale : ∀ d ∈ history.answered, ¬ Current q d.id d.lease → ¬ Current q' d.id d.lease
  /-- The attempts are the claims that answered it since it was inserted, the last of which holds.
  -/
  attempts : ∀ id one, q.find id = some one → one.attempts = (history.leasesOf id).length
  last : ∀ id lease, Current q id lease → (history.leasesOf id).getLast? = some lease
  /-- What a claim answers is one attempt more, under its lease until that ends; and while there is
  room it leaves out nothing that is due. -/
  claimed : ∀ d ∈ answer.deliveries, ∃ one leaseUntil, q.find d.id = some one ∧
    op.leaseUntil = some leaseUntil ∧
    q'.find d.id = some ⟨one.event, one.endpoint, one.attempts + 1, one.failed, some d.lease,
      leaseUntil⟩ ∧
    d = ⟨d.id, one.event, one.endpoint, one.attempts + 1, one.failed, d.lease⟩
  all : ∀ claims limit at_, op.claims = some (claims, limit) → op.dueAt = some at_ →
    answer.deliveries.length < limit → ∀ id one, q.find id = some one → claims one.endpoint →
      one.due ≤ at_ → ∃ d ∈ answer.deliveries, d.id = id
  /-- Who names the lease moves its end, releases it with what failed, or deletes the delivery. -/
  extended : ∀ id lease until_ one, op = .extendLease id lease until_ → q.find id = some one →
    one.lease = some lease → answer = .done true ∧
      q'.find id = some ⟨one.event, one.endpoint, one.attempts, one.failed, some lease, until_⟩
  retried : ∀ id lease dueAt failed one, op = .scheduleRetry id lease dueAt failed →
    q.find id = some one → one.lease = some lease → answer = .done true ∧
      q'.find id = some ⟨one.event, one.endpoint, one.attempts, some failed, none, dueAt⟩
  deleted : ∀ id lease one, op = .deleteDelivery id lease → q.find id = some one →
    one.lease = some lease → answer = .done true ∧ q'.find id = none
  /-- An operation with a lease that is not held answers `false`, and changes nothing. -/
  refused : ∀ id lease, op.names = some (id, lease) → ¬ Current q id lease →
    answer = .done false ∧ q' = q
  /-- A delivery held is left as it is by an insert, which puts in those that are not. -/
  kept : ∀ event endpoints dueAt id one, op = .insertDeliveries event endpoints dueAt →
    q.find id = some one → q'.find id = some one
  inserted : ∀ event endpoints dueAt, op = .insertDeliveries event endpoints dueAt →
    ∀ endpoint ∈ endpoints, q.find (deliveryId event endpoint) = none →
      q'.find (deliveryId event endpoint) = some ⟨event, endpoint, 0, none, none, dueAt⟩
  /-- What is neither claimed nor named nor inserted is left as it is. -/
  others : ∀ id, (∀ d ∈ answer.deliveries, d.id ≠ id) → (∀ lease, op.names ≠ some (id, lease)) →
    ¬ op.Inserts id → q'.find id = q.find id

section Protocol

variable {uuid : ℕ → Str} {q : Queue} {history : History}

/-- What an operation answers of deliveries: what a claim does, or nothing. -/
theorem deliveries_run (uuid : ℕ → Str) (q : Queue) (op : QueueOp) :
    (op.run uuid q).1.deliveries = [] ∨
    ∃ at_ leaseUntil, op.dueAt = some at_ ∧ op.leaseUntil = some leaseUntil ∧
      Claims uuid at_ leaseUntil q (op.run uuid q).1.deliveries (op.run uuid q).2 := by
  cases op with
  | claimDeliveries endpoints now leaseUntil limit =>
    exact Or.inr ⟨_, _, rfl, rfl, claim_spec q endpoints⟩
  | claimOrphanedDeliveries known dueBefore leaseUntil limit =>
    exact Or.inr ⟨_, _, rfl, rfl, claim_spec q _⟩
  | _ => exact Or.inl rfl

theorem claims_of_deliveries {q : Queue} {op : QueueOp} {d : QueuedDelivery}
    (hd : d ∈ (op.run uuid q).1.deliveries) : ∃ at_ leaseUntil, op.dueAt = some at_ ∧
      op.leaseUntil = some leaseUntil ∧
      Claims uuid at_ leaseUntil q (op.run uuid q).1.deliveries (op.run uuid q).2 := by
  rcases deliveries_run uuid q op with hnil | hclaims
  · rw [hnil] at hd
    exact absurd hd List.not_mem_nil
  · exact hclaims

/-- A write whose lease is not held moves nothing. -/
theorem run_of_stale {op : QueueOp} {id lease : Str} (hnames : op.names = some (id, lease))
    (h : ¬ Current q id lease) : op.run uuid q = (.done false, q) := by
  cases op with
  | extendLease | scheduleRetry | deleteDelivery =>
    cases hnames
    simp only [QueueOp.run, extendLease, scheduleRetry, deleteDelivery, leased_eq_none h]
  | _ => cases hnames

/-- **A claim with room left took all that was due** where it claims. -/
theorem claims_all {op : QueueOp} {claims : Str → Prop} {limit : ℤ} {at_ : Time}
    (hclaims : op.claims = some (claims, limit)) (hat : op.dueAt = some at_)
    (hroom : (op.run uuid q).1.deliveries.length < limit) {id : Str} {one : Held}
    (hone : q.find id = some one) (hends : claims one.endpoint) (hdue : one.due ≤ at_) :
    ∃ d ∈ (op.run uuid q).1.deliveries, d.id = id := by
  cases op with
  | claimDeliveries endpoints now leaseUntil limit =>
    cases hclaims
    cases hat
    exact claim_takes hroom hone hends hdue
  | claimOrphanedDeliveries known dueBefore leaseUntil limit =>
    cases hclaims
    cases hat
    refine claim_takes hroom hone (List.mem_filter.mpr ⟨?_, decide_eq_true hends⟩) hdue
    exact List.mem_map.mpr ⟨(id, one), mem_of_get hone, rfl⟩
  | _ => cases hclaims

/-- A write under the lease that is held. -/
theorem leased_eq {id lease : Str} {one : Held} (hone : q.find id = some one)
    (hlease : one.lease = some lease) : leased q id lease = some one :=
  leased_eq_some.mpr ⟨hone, hlease⟩

theorem extended_run {id lease : Str} {until_ : Time} {one : Held} (hone : q.find id = some one)
    (hlease : one.lease = some lease) :
    ((QueueOp.extendLease id lease until_).run uuid q).1 = .done true ∧
      ((QueueOp.extendLease id lease until_).run uuid q).2.find id =
        some ⟨one.event, one.endpoint, one.attempts, one.failed, some lease, until_⟩ := by
  simp only [QueueOp.run, extendLease, leased_eq hone hlease]
  refine ⟨trivial, (Queue.find_put ..).trans ((if_pos rfl).trans ?_)⟩
  rw [Held.extended, hlease]

theorem retried_run {id lease : Str} {dueAt : Time} {failed : Failure} {one : Held}
    (hone : q.find id = some one) (hlease : one.lease = some lease) :
    ((QueueOp.scheduleRetry id lease dueAt failed).run uuid q).1 = .done true ∧
      ((QueueOp.scheduleRetry id lease dueAt failed).run uuid q).2.find id =
        some ⟨one.event, one.endpoint, one.attempts, some failed, none, dueAt⟩ := by
  simp only [QueueOp.run, scheduleRetry, leased_eq hone hlease]
  exact ⟨trivial, (Queue.find_put ..).trans (if_pos rfl)⟩

theorem deleted_run {id lease : Str} {one : Held} (hone : q.find id = some one)
    (hlease : one.lease = some lease) :
    ((QueueOp.deleteDelivery id lease).run uuid q).1 = .done true ∧
      ((QueueOp.deleteDelivery id lease).run uuid q).2.find id = none := by
  simp only [QueueOp.run, deleteDelivery, leased_eq hone hlease]
  exact ⟨trivial, (Queue.find_remove ..).trans (if_pos rfl)⟩

/-- **What is neither claimed nor named nor inserted is left as it is.** -/
theorem others_run {op : QueueOp} {id : Str}
    (hclaimed : ∀ d ∈ (op.run uuid q).1.deliveries, d.id ≠ id)
    (hnames : ∀ lease, op.names ≠ some (id, lease)) (hinserts : ¬ op.Inserts id) :
    (op.run uuid q).2.find id = q.find id := by
  cases op with
  | insertDeliveries event endpoints dueAt =>
    refine find_insertEach_of_ne fun endpoint hmem heq => hinserts ⟨_, _, _, rfl, endpoint, ?_, heq⟩
    simpa using hmem
  | claimDeliveries endpoints now leaseUntil limit =>
    exact (claim_spec q endpoints).kept id hclaimed
  | claimOrphanedDeliveries known dueBefore leaseUntil limit =>
    exact (claim_spec q _).kept id hclaimed
  | extendLease id' lease until_ =>
    have hne : id' ≠ id := fun heq => hnames lease (by rw [heq]; rfl)
    simp only [QueueOp.run, extendLease]
    cases leased q id' lease with
    | none => rfl
    | some one => exact (Queue.find_put ..).trans (if_neg hne)
  | scheduleRetry id' lease dueAt failed =>
    have hne : id' ≠ id := fun heq => hnames lease (by rw [heq]; rfl)
    simp only [QueueOp.run, scheduleRetry]
    cases leased q id' lease with
    | none => rfl
    | some one => exact (Queue.find_put ..).trans (if_neg hne)
  | deleteDelivery id' lease =>
    have hne : id' ≠ id := fun heq => hnames lease (by rw [heq]; rfl)
    simp only [QueueOp.run, deleteDelivery]
    cases leased q id' lease with
    | none => rfl
    | some one => exact (Queue.find_remove ..).trans (if_neg hne)

/-- What leaves the queue was deleted, under its lease. -/
theorem deleted_of_run {op : QueueOp} {id : Str} {one : Held} (hone : q.find id = some one)
    (h : (op.run uuid q).2.find id = none) :
    ∃ lease, op = .deleteDelivery id lease ∧ one.lease = some lease := by
  have hput : ∀ {id' one'}, ((q.put id' one').find id = none) → False := by
    intro id' one' hnone
    rw [Queue.find_put] at hnone
    split at hnone
    · cases hnone
    · cases hone.symm.trans hnone
  have hclaim : ∀ {at_ leaseUntil answered q'}, Claims uuid at_ leaseUntil q answered q' →
      q'.find id = none → False := by
    intro at_ leaseUntil answered q' hclaims hnone
    by_cases hd : ∃ d ∈ answered, d.id = id
    · obtain ⟨d, hd, rfl⟩ := hd
      obtain ⟨one', -, -, hclaimed, -⟩ := hclaims.taken d hd
      cases hnone.symm.trans hclaimed
    · cases (hclaims.kept id fun d hmem heq => hd ⟨d, hmem, heq⟩).symm.trans hnone
        |>.symm.trans hone
  cases op with
  | insertDeliveries event endpoints dueAt =>
    cases (find_insertEach_of_some hone).symm.trans h
  | claimDeliveries endpoints now leaseUntil limit => exact (hclaim (claim_spec q endpoints) h).elim
  | claimOrphanedDeliveries known dueBefore leaseUntil limit =>
    exact (hclaim (claim_spec q _) h).elim
  | extendLease id' lease' until_ =>
    simp only [QueueOp.run, extendLease] at h
    split at h
    · cases hone.symm.trans h
    · exact (hput h).elim
  | scheduleRetry id' lease' dueAt failed =>
    simp only [QueueOp.run, scheduleRetry] at h
    split at h
    · cases hone.symm.trans h
    · exact (hput h).elim
  | deleteDelivery id' lease' =>
    simp only [QueueOp.run, deleteDelivery] at h
    split at h
    case h_1 => cases hone.symm.trans h
    case h_2 one' hleased =>
      obtain ⟨hone', hlease⟩ := leased_eq_some.mp hleased
      rw [Queue.find_remove] at h
      split at h
      case isTrue heq =>
        subst heq
        cases hone.symm.trans hone'
        exact ⟨lease', rfl, hlease⟩
      case isFalse => cases hone.symm.trans h

/-- A lease held after an operation was held before, or was just drawn. -/
theorem current_of_run {op : QueueOp} {id lease : Str} (h : Current (op.run uuid q).2 id lease) :
    Current q id lease ∨ ∃ n ≥ q.drawn, lease = uuid n := by
  have hclaim : ∀ {at_ leaseUntil answered q'}, Claims uuid at_ leaseUntil q answered q' →
      Current q' id lease → Current q id lease ∨ ∃ n ≥ q.drawn, lease = uuid n := by
    rintro at_ leaseUntil answered q' hclaims ⟨one, hone, hlease⟩
    by_cases hd : ∃ d ∈ answered, d.id = id
    · obtain ⟨d, hd, rfl⟩ := hd
      obtain ⟨one', -, -, hclaimed, -⟩ := hclaims.taken d hd
      cases hone.symm.trans hclaimed
      have hmem : d.lease ∈ answered.map (·.lease) := List.mem_map_of_mem hd
      rw [hclaims.leases] at hmem
      obtain ⟨n, hn, heq⟩ := List.mem_map.mp hmem
      exact Or.inr ⟨n, (List.mem_range'_1.mp hn).1, (Option.some.inj hlease).symm.trans heq.symm⟩
    · have hkept := hclaims.kept id fun d hmem heq => hd ⟨d, hmem, heq⟩
      exact Or.inl ⟨one, hkept.symm.trans hone, hlease⟩
  have hput : ∀ {id' : Str} {one one' : Held}, q.find id' = some one →
      (one'.lease = none ∨ one'.lease = one.lease) → Current (q.put id' one') id lease →
      Current q id lease := by
    rintro id' one one' hone hl ⟨one'', hone'', hlease⟩
    rw [Queue.find_put] at hone''
    split at hone''
    case isTrue heq =>
      cases hone''
      rcases hl with hl | hl
      · cases hl.symm.trans hlease
      · exact ⟨one, heq ▸ hone, hl.symm.trans hlease⟩
    case isFalse => exact ⟨one'', hone'', hlease⟩
  cases op with
  | insertDeliveries event endpoints dueAt =>
    obtain ⟨one, hone, hlease⟩ := h
    rcases find_insertEach hone with hone | ⟨-, -, hnone⟩
    · exact Or.inl ⟨one, hone, hlease⟩
    · cases hnone.symm.trans hlease
  | claimDeliveries endpoints now leaseUntil limit => exact hclaim (claim_spec q endpoints) h
  | claimOrphanedDeliveries known dueBefore leaseUntil limit => exact hclaim (claim_spec q _) h
  | extendLease id' lease' until_ =>
    simp only [QueueOp.run, extendLease] at h
    cases hleased : leased q id' lease' with
    | none => rw [hleased] at h; exact Or.inl h
    | some one =>
      rw [hleased] at h
      refine Or.inl (hput (leased_eq_some.mp hleased).1 ?_ h)
      exact Or.inr rfl
  | scheduleRetry id' lease' dueAt failed =>
    simp only [QueueOp.run, scheduleRetry] at h
    cases hleased : leased q id' lease' with
    | none => rw [hleased] at h; exact Or.inl h
    | some one =>
      rw [hleased] at h
      refine Or.inl (hput (leased_eq_some.mp hleased).1 ?_ h)
      exact Or.inl rfl
  | deleteDelivery id' lease' =>
    simp only [QueueOp.run, deleteDelivery] at h
    cases hleased : leased q id' lease' with
    | none => rw [hleased] at h; exact Or.inl h
    | some one =>
      rw [hleased] at h
      obtain ⟨one', hone', hlease⟩ := h
      rw [Queue.find_remove] at hone'
      split at hone'
      · cases hone'
      · exact Or.inl ⟨one', hone', hlease⟩

end Protocol

/-- **The lease protocol holds after every run**, for every operation. -/
theorem lease_protocol (uuid : ℕ → Str) (huuid : Function.Injective uuid) (ops : List QueueOp)
    (op : QueueOp) :
    LeaseProtocol (runQueue uuid ops).1 (runQueue uuid ops).2 op
      (op.run uuid (runQueue uuid ops).1).1
      (op.run uuid (runQueue uuid ops).1).2 := by
  have hleased := leased_runQueue uuid ops
  generalize (runQueue uuid ops).1 = q at hleased ⊢
  generalize (runQueue uuid ops).2 = history at hleased ⊢
  -- a lease drawn by this operation was given to nobody before
  have hfresh : ∀ n ≥ q.drawn, uuid n ∉ history.answered.map (·.lease) := by
    intro n hn hmem
    rw [hleased.leases] at hmem
    obtain ⟨n', hn', heq⟩ := List.mem_map.mp hmem
    have := List.mem_range.mp (huuid heq ▸ hn')
    omega
  have hrenewed : ∀ d ∈ (op.run uuid q).1.deliveries, Current (op.run uuid q).2 d.id d.lease ∧
      d.lease ∉ history.answered.map (·.lease) := by
    intro d hd
    obtain ⟨at_, leaseUntil, -, -, hclaims⟩ := claims_of_deliveries hd
    obtain ⟨one, -, -, hone, -⟩ := hclaims.taken d hd
    refine ⟨⟨_, hone, rfl⟩, ?_⟩
    have hmem : d.lease ∈ ((op.run uuid q).1.deliveries).map (·.lease) := List.mem_map_of_mem hd
    rw [hclaims.leases] at hmem
    obtain ⟨n, hn, heq⟩ := List.mem_map.mp hmem
    exact heq ▸ hfresh n (List.mem_range'_1.mp hn).1
  exact
    { leaves := fun id one => deleted_of_run
      once := by
        rcases deliveries_run uuid q op with hnil | ⟨_, _, -, -, hclaims⟩
        · rw [hnil]
          exact List.nodup_nil
        · exact hclaims.nodup
      due := fun d hd => by
        obtain ⟨at_, leaseUntil, hat, -, hclaims⟩ := claims_of_deliveries hd
        obtain ⟨one, hone, hdue, -⟩ := hclaims.taken d hd
        exact ⟨one, at_, hone, hat, hdue⟩
      renewed := hrenewed
      stale := fun d hd d' hd' heq hcurrent => by
        obtain ⟨⟨one, hone, hlease⟩, hnew⟩ := hrenewed d hd
        obtain ⟨one', hone', hlease'⟩ := hcurrent
        rw [heq, hone] at hone'
        cases hone'
        rw [Option.some.inj (hlease.symm.trans hlease')] at hnew
        exact hnew (List.mem_map_of_mem hd')
      stays_stale := fun d hd hstale hcurrent => by
        rcases current_of_run hcurrent with hcurrent | ⟨n, hn, heq⟩
        · exact hstale hcurrent
        · exact hfresh n hn (heq ▸ List.mem_map_of_mem hd)
      attempts := hleased.attempts
      last := hleased.last
      claimed := fun d hd => by
        obtain ⟨at_, leaseUntil, -, huntil, hclaims⟩ := claims_of_deliveries hd
        obtain ⟨one, hone, -, hone', heq⟩ := hclaims.taken d hd
        exact ⟨one, leaseUntil, hone, huntil, hone', heq⟩
      all := fun claims limit at_ hclaims hat hroom id one => claims_all hclaims hat hroom
      extended := by
        rintro id lease until_ one rfl hone hlease
        exact extended_run hone hlease
      retried := by
        rintro id lease dueAt failed one rfl hone hlease
        exact retried_run hone hlease
      deleted := by
        rintro id lease one rfl hone hlease
        exact deleted_run hone hlease
      refused := fun id lease hnames hstale =>
        Prod.ext_iff.mp (run_of_stale hnames hstale)
      kept := by
        rintro event endpoints dueAt id one rfl hone
        exact find_insertEach_of_some hone
      inserted := by
        rintro event endpoints dueAt rfl endpoint hmem hnone
        exact find_insertEach_of_none (by simpa using hmem) hnone
      others := fun id => others_run }

/-- Ada's sign-up, for two endpoints. -/
def signedUp : UserEvent where
  id := js "e1"
  type := js "userCreated"
  occurredAt := 0
  userId := js "ada"
  userType := js "patient"

/-- Two deliveries, of which one is claimed, and again once its lease ran out. -/
def lapsed : List QueueOp :=
  [.insertDeliveries signedUp [js "crm", js "mail"] 0, .claimDeliveries [js "crm"] 0 10 5,
    .claimDeliveries [js "crm"] 10 20 5]

theorem lease_protocol_lapsed : LeaseProtocol (runQueue decimal lapsed).1
    (runQueue decimal lapsed).2
    (.deleteDelivery (js "e1:userCreated:crm") (decimal 0))
    (QueueOp.run decimal (runQueue decimal lapsed).1
      (.deleteDelivery (js "e1:userCreated:crm") (decimal 0))).1
    (QueueOp.run decimal (runQueue decimal lapsed).1
      (.deleteDelivery (js "e1:userCreated:crm") (decimal 0))).2 :=
  lease_protocol decimal decimal_injective lapsed
    (.deleteDelivery (js "e1:userCreated:crm") (decimal 0))

end Janus.Webhooks
