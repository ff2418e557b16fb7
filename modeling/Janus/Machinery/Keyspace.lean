import Janus.Machinery.Insertion
import Mathlib.Data.List.Perm.Basic
import Mathlib.Logic.Function.Basic
import Mathlib.Order.Lattice

/-!
# Machinery/Keyspace — keys that expire, and scripts over them

A key holds a text, a hash or a set, until it expires.  A script is commands one after the other
with nothing in between; a fault ends it, and undoes none of the commands before it.  Each command
has one lemma for each shape its key may be in, so what holds after a script (`After`) is found one
command after the other (`After.next`), and for its loops by what holds of the members done
(`After.foldlM`).
-/

namespace Keyspace

open Insertion

variable {S α β : Type}

/-! ## A keyspace -/

inductive Value (S : Type) where
  | text (value : S)
  | hash (fields : List (S × S))
  | set (members : List S)

/-- What a key holds, to the last moment it does: with none, for good. -/
structure Entry (S : Type) where
  value : Value S
  expiresAt : Option ℤ

/-- Whether the entry is still there. -/
def Entry.alive (now : ℤ) (e : Entry S) : Bool := e.expiresAt.all (now ≤ ·)

/-- The keys, the time, and the order in which a set's members are answered. -/
structure Db (S : Type) where
  now : ℤ
  keys : S → Option (Entry S)
  arrange : List S → List S
  arranged : ∀ members, (arrange members).Perm members

/-- A keyspace with no key, that answers a set in the order it was filled. -/
def Db.empty (now : ℤ) : Db S :=
  { now := now, keys := fun _ => none, arrange := id, arranged := fun _ => List.Perm.refl _ }

/-- Time passes, and what has expired is gone. -/
def Db.tick (db : Db S) (elapsed : ℕ) : Db S :=
  { db with
    now := db.now + elapsed
    keys := fun k => (db.keys k).filter (·.alive (db.now + elapsed)) }

/-- What ends a script. -/
inductive Fault (S : Type) where
  | wrongType
  | invalidExpiry
  /-- A text made with what is none. -/
  | concatenation
  | reply (message : S)

/-- A script, to what it answers and the keyspace it leaves. -/
def Script (S α : Type) := Db S → Except (Fault S) α × Db S

instance : Monad (Script S) where
  pure a := fun db => (.ok a, db)
  bind x f := fun db => match x db with
    | (.ok a, db') => f a db'
    | (.error e, db') => (.error e, db')

/-- A script that ends here. -/
def fault (e : Fault S) : Script S α := fun db => (.error e, db)

@[simp] theorem pure_run (a : α) (db : Db S) : (pure a : Script S α) db = (.ok a, db) := rfl

theorem bind_ok {x : Script S α} {f : α → Script S β} {db db' : Db S} {a : α}
    (h : x db = (.ok a, db')) : (x >>= f) db = f a db' := by
  change (match x db with
    | (.ok a, db') => f a db'
    | (.error e, db') => (.error e, db')) = f a db'
  rw [h]

theorem bind_error {x : Script S α} {f : α → Script S β} {db db' : Db S} {e : Fault S}
    (h : x db = (.error e, db')) : (x >>= f) db = (.error e, db') := by
  change (match x db with
    | (.ok a, db') => f a db'
    | (.error e, db') => (.error e, db')) = (.error e, db')
  rw [h]

theorem map_ok {x : Script S α} {f : α → β} {db db' : Db S} {a : α} (h : x db = (.ok a, db')) :
    (f <$> x) db = (.ok (f a), db') := bind_ok h

/-! ## What holds after a script -/

/-- What holds of a script's answer and of the keyspace it leaves, or of its fault and of that. -/
def After (x : Script S α) (db : Db S) (Q : α → Db S → Prop) (F : Fault S → Db S → Prop) : Prop :=
  match x db with
  | (.ok a, db') => Q a db'
  | (.error e, db') => F e db'

section After

variable {x : Script S α} {f : α → Script S β} {db db' : Db S} {a : α} {Q Q' : α → Db S → Prop}
  {R : β → Db S → Prop} {F F' : Fault S → Db S → Prop}

theorem After.of_run (h : x db = (.ok a, db')) (hQ : Q a db') : After x db Q F := by
  rw [After, h]
  exact hQ

theorem After.pure (h : Q a db) : After (pure a) db Q F := h

theorem After.fault {e : Fault S} (h : F e db) : After (Keyspace.fault e) db Q F := h

theorem After.bind (h : After x db (fun a db' => After (f a) db' R F) F) :
    After (x >>= f) db R F := by
  rw [After] at h ⊢
  split at h
  case h_1 a db' hrun => rwa [bind_ok hrun]
  case h_2 e db' hrun => rwa [bind_error hrun]

/-- The first of two scripts run. -/
theorem After.next (hrun : x db = (.ok a, db')) (h : After (f a) db' R F) :
    After (x >>= f) db R F := .bind (.of_run hrun h)

/-- A script that ends by a fault. -/
theorem After.stop {e : Fault S} (hrun : x db = (.error e, db')) (h : F e db') :
    After (x >>= f) db R F := by
  rw [After, bind_error hrun]
  exact h

theorem After.mono (h : After x db Q F) (hQ : ∀ a db', Q a db' → Q' a db')
    (hF : ∀ e db', F e db' → F' e db') : After x db Q' F' := by
  rw [After] at h ⊢
  split at h
  case h_1 => exact hQ _ _ h
  case h_2 => exact hF _ _ h

/-- What holds after a script, each on its own. -/
theorem After.and (h : After x db Q F) (h' : After x db Q' F') :
    After x db (fun a db' => Q a db' ∧ Q' a db') fun e db' => F e db' ∧ F' e db' := by
  rw [After] at h h' ⊢
  split at h
  case h_1 hrun =>
    rw [hrun] at h'
    exact ⟨h, h'⟩
  case h_2 hrun =>
    rw [hrun] at h'
    exact ⟨h, h'⟩

/-- **One script after another**, by what holds between them. -/
theorem After.seq (h : After x db Q F) (hf : ∀ a db', Q a db' → After (f a) db' R F) :
    After (x >>= f) db R F := .bind (h.mono hf fun _ _ h => h)

/-- …and after two. -/
theorem After.seq₂ {γ : Type} {g : β → Script S γ} {T : γ → Db S → Prop}
    (h : After (x >>= f) db R F) (hg : ∀ b db', R b db' → After (g b) db' T F) :
    After (x >>= fun a => f a >>= g) db T F := by
  refine .bind ?_
  cases hrun : x db with
  | mk result db' =>
    cases result with
    | error e =>
      rw [After, bind_error hrun] at h
      rw [After, hrun]
      exact h
    | ok a =>
      rw [After, bind_ok hrun] at h
      exact .of_run hrun (.seq h hg)

/-- A script that never faults answers. -/
theorem After.exists_run (h : After x db Q fun _ _ => False) :
    ∃ a db', x db = (.ok a, db') ∧ Q a db' := by
  rw [After] at h
  split at h
  case h_1 a db' hrun => exact ⟨a, db', hrun, h⟩
  case h_2 => exact h.elim

/-- What holds after either end holds of the keyspace that is left. -/
theorem After.left {P : Db S → Prop} (h : After x db (fun _ => P) fun _ => P) : P (x db).2 := by
  rw [After] at h
  split at h
  case h_1 a db' hrun => rwa [hrun]
  case h_2 e db' hrun => rwa [hrun]

/-- **A loop**, by what holds of the members done, at a member between them and the rest. -/
theorem After.foldlM_split {τ : Type} {f : β → τ → Script S β} {P : List τ → β → Db S → Prop}
    {l : List τ} {b : β} (hstart : P [] b db)
    (hstep : ∀ done x rest b db, l = done ++ x :: rest → P done b db →
      After (f b x) db (fun b' db' => P (done ++ [x]) b' db') F) :
    After (l.foldlM f b) db (fun b' db' => P l b' db') F := by
  suffices h : ∀ rest done b db, l = done ++ rest → P done b db →
      After (rest.foldlM f b) db (fun b' db' => P (done ++ rest) b' db') F from
    h l [] b db rfl hstart
  intro rest
  induction rest with
  | nil =>
    intro done b db _ h
    exact .pure (by rwa [List.append_nil])
  | cons x rest ih =>
    intro done b db hl h
    rw [List.foldlM_cons]
    refine .bind ((hstep done x rest b db hl h).mono (fun b' db' h' => ?_) fun _ _ => id)
    have hlater := ih (done ++ [x]) b' db' (by rw [hl, List.append_assoc, List.singleton_append]) h'
    rwa [List.append_assoc, List.singleton_append] at hlater

/-- …wherever the member stands. -/
theorem After.foldlM {τ : Type} {f : β → τ → Script S β} {P : List τ → β → Db S → Prop}
    {l : List τ} {b : β} (hstart : P [] b db)
    (hstep : ∀ done x b db, x ∈ l → P done b db →
      After (f b x) db (fun b' db' => P (done ++ [x]) b' db') F) :
    After (l.foldlM f b) db (fun b' db' => P l b' db') F :=
  .foldlM_split hstart fun done x _ b db hl =>
    hstep done x b db (hl ▸ List.mem_append_right _ List.mem_cons_self)

end After

/-! ## What a script reads -/

def existsKey (k : S) : Script S Bool := fun db => (.ok (db.keys k).isSome, db)

/-- The text a key holds. -/
def get (k : S) : Script S (Option S) := fun db =>
  match db.keys k with
  | none => (.ok none, db)
  | some ⟨.text value, _⟩ => (.ok (some value), db)
  | some _ => (.error .wrongType, db)

def hgetall (k : S) : Script S (List (S × S)) := fun db =>
  match db.keys k with
  | none => (.ok [], db)
  | some ⟨.hash fields, _⟩ => (.ok fields, db)
  | some _ => (.error .wrongType, db)

def smembers (k : S) : Script S (List S) := fun db =>
  match db.keys k with
  | none => (.ok [], db)
  | some ⟨.set members, _⟩ => (.ok (db.arrange members), db)
  | some _ => (.error .wrongType, db)

/-- How long a key has left: `-1` for good, `-2` for none. -/
def pttl (k : S) : Script S ℤ := fun db =>
  match db.keys k with
  | none => (.ok (-2), db)
  | some ⟨_, none⟩ => (.ok (-1), db)
  | some ⟨_, some at_⟩ => (.ok (at_ - db.now), db)

/-- A keyspace that differs from another at one key at most. -/
def Away (k : S) (db db' : Db S) : Prop :=
  db'.now = db.now ∧ ∀ k', k' ≠ k → db'.keys k' = db.keys k'

theorem Away.refl {k : S} {db : Db S} : Away k db db := ⟨rfl, fun _ _ => rfl⟩

theorem Away.trans {k : S} {db db' db'' : Db S} (h : Away k db db') (h' : Away k db' db'') :
    Away k db db'' :=
  ⟨h'.1.trans h.1, fun k' hne => (h'.2 k' hne).trans (h.2 k' hne)⟩

section Reads

variable {db : Db S} {k value : S} {fields : List (S × S)} {members : List S} {at_ : ℤ}
  {expiresAt : Option ℤ}

theorem existsKey_run : existsKey k db = (.ok (db.keys k).isSome, db) := rfl

theorem mem_arrange {m : S} : m ∈ db.arrange members ↔ m ∈ members := (db.arranged members).mem_iff

/-- Two lists of each once, alike in what counts, count alike. -/
theorem countP_eq_of_nodup {τ : Type*} {l l' : List τ} {q : τ → Bool} (h : l.Nodup) (h' : l'.Nodup)
    (hmem : ∀ a, q a → (a ∈ l ↔ a ∈ l')) : l.countP q = l'.countP q := by
  rw [List.countP_eq_length_filter, List.countP_eq_length_filter]
  refine ((List.perm_ext_iff_of_nodup (h.filter q) (h'.filter q)).mpr fun a => ?_).length_eq
  rw [List.mem_filter, List.mem_filter]
  exact and_congr_left fun hq => hmem a hq

theorem get_none (h : db.keys k = none) : get k db = (.ok none, db) := by
  rw [get, h]

theorem get_text (h : db.keys k = some ⟨.text value, expiresAt⟩) :
    get k db = (.ok (some value), db) := by
  rw [get, h]

theorem hgetall_none (h : db.keys k = none) : hgetall k db = (.ok [], db) := by
  rw [hgetall, h]

theorem hgetall_hash (h : db.keys k = some ⟨.hash fields, expiresAt⟩) :
    hgetall k db = (.ok fields, db) := by
  rw [hgetall, h]

theorem hgetall_text (h : db.keys k = some ⟨.text value, expiresAt⟩) :
    hgetall k db = (.error .wrongType, db) := by
  rw [hgetall, h]

theorem smembers_none (h : db.keys k = none) : smembers k db = (.ok [], db) := by
  rw [smembers, h]

theorem smembers_set (h : db.keys k = some ⟨.set members, expiresAt⟩) :
    smembers k db = (.ok (db.arrange members), db) := by
  rw [smembers, h]

theorem pttl_lasting {value : Value S} (h : db.keys k = some ⟨value, none⟩) :
    pttl k db = (.ok (-1), db) := by
  rw [pttl, h]

theorem pttl_some {value : Value S} (h : db.keys k = some ⟨value, some at_⟩) :
    pttl k db = (.ok (at_ - db.now), db) := by
  rw [pttl, h]

end Reads

/-! ## What a script writes -/

section Writes

variable [DecidableEq S]

/-- One key written, or taken out. -/
def Db.put (db : Db S) (k : S) (e : Option (Entry S)) : Db S :=
  { db with keys := Function.update db.keys k e }

/-- Fields written over others. -/
def putAll (fields more : List (S × S)) : List (S × S) :=
  more.foldl (fun fields e => Insertion.put fields e.1 e.2) fields

def hget (k field : S) : Script S (Option S) := (Insertion.get · field) <$> hgetall k

def hset (k : S) (fields : List (S × S)) : Script S Unit := fun db =>
  match db.keys k with
  | none => (.ok (), db.put k (some ⟨.hash (putAll [] fields), none⟩))
  | some ⟨.hash old, expiresAt⟩ => (.ok (), db.put k (some ⟨.hash (putAll old fields), expiresAt⟩))
  | some _ => (.error .wrongType, db)

/-- A text written with its expiry: one past is not there. -/
def setPxat (k value : S) (at_ : ℤ) : Script S Unit := fun db =>
  if at_ ≤ 0 then (.error .invalidExpiry, db)
  else (.ok (), db.put k (if at_ < db.now then none else some ⟨.text value, some at_⟩))

def del (k : S) : Script S Bool := fun db => (.ok (db.keys k).isSome, db.put k none)

/-- A set of these members: with none, no key. -/
def setEntry (members : List S) (expiresAt : Option ℤ) : Option (Entry S) :=
  if members = [] then none else some ⟨.set members, expiresAt⟩

def sadd (k member : S) : Script S Unit := fun db =>
  match db.keys k with
  | none => (.ok (), db.put k (some ⟨.set [member], none⟩))
  | some ⟨.set members, expiresAt⟩ => (.ok (), db.put k (some ⟨.set (add members member), expiresAt⟩))
  | some _ => (.error .wrongType, db)

def srem (k member : S) : Script S Unit := fun db =>
  match db.keys k with
  | none => (.ok (), db)
  | some ⟨.set members, expiresAt⟩ =>
    (.ok (), db.put k (setEntry (members.filter (· ≠ member)) expiresAt))
  | some _ => (.error .wrongType, db)

/-- An entry to expire at a time: at one past, none. -/
def Entry.until (e : Entry S) (at_ now : ℤ) : Option (Entry S) :=
  if at_ ≤ now then none else some { e with expiresAt := some at_ }

def pexpireat (k : S) (at_ : ℤ) : Script S Unit := fun db =>
  match db.keys k with
  | none => (.ok (), db)
  | some e => (.ok (), db.put k (e.until at_ db.now))

/-- …unless it already expires later, or never. -/
def pexpireatGt (k : S) (at_ : ℤ) : Script S Unit := fun db =>
  match db.keys k with
  | some ⟨_, some old⟩ => if old < at_ then pexpireat k at_ db else (.ok (), db)
  | _ => (.ok (), db)

variable {db : Db S} {k k' member value field : S} {e : Option (Entry S)}
  {fields more : List (S × S)} {members : List S} {at_ : ℤ} {expiresAt : Option ℤ}

@[simp] theorem put_keys : (db.put k e).keys k' = if k' = k then e else db.keys k' := by
  rw [Db.put]
  exact Function.update_apply ..

@[simp] theorem put_now : (db.put k e).now = db.now := rfl

theorem put_put {e' : Option (Entry S)} : (db.put k e).put k e' = db.put k e' := by
  rw [Db.put, Db.put, Function.update_idem, Db.put]

theorem put_away : Away k db (db.put k e) :=
  ⟨rfl, fun _ hne => put_keys.trans (if_neg hne)⟩

theorem hget_none (h : db.keys k = none) : hget k field db = (.ok none, db) :=
  map_ok (hgetall_none h)

theorem hget_hash (h : db.keys k = some ⟨.hash fields, expiresAt⟩) :
    hget k field db = (.ok (Insertion.get fields field), db) := map_ok (hgetall_hash h)

theorem hget_text (h : db.keys k = some ⟨.text value, expiresAt⟩) :
    hget k field db = (.error .wrongType, db) := bind_error (hgetall_text h)

theorem hset_none (h : db.keys k = none) :
    hset k fields db = (.ok (), db.put k (some ⟨.hash (putAll [] fields), none⟩)) := by
  rw [hset, h]

theorem hset_hash (h : db.keys k = some ⟨.hash fields, expiresAt⟩) :
    hset k more db = (.ok (), db.put k (some ⟨.hash (putAll fields more), expiresAt⟩)) := by
  rw [hset, h]

theorem setPxat_past (h : at_ ≤ 0) : setPxat k value at_ db = (.error .invalidExpiry, db) :=
  if_pos h

theorem setPxat_ok (h : 0 < at_) : setPxat k value at_ db =
    (.ok (), db.put k (if at_ < db.now then none else some ⟨.text value, some at_⟩)) :=
  if_neg (not_le.mpr h)

theorem del_run : del k db = (.ok (db.keys k).isSome, db.put k none) := rfl

theorem sadd_none (h : db.keys k = none) :
    sadd k member db = (.ok (), db.put k (some ⟨.set [member], none⟩)) := by
  rw [sadd, h]

theorem sadd_set (h : db.keys k = some ⟨.set members, expiresAt⟩) :
    sadd k member db = (.ok (), db.put k (some ⟨.set (add members member), expiresAt⟩)) := by
  rw [sadd, h]

theorem srem_none (h : db.keys k = none) : srem k member db = (.ok (), db) := by
  rw [srem, h]

theorem srem_set (h : db.keys k = some ⟨.set members, expiresAt⟩) : srem k member db =
    (.ok (), db.put k (setEntry (members.filter (· ≠ member)) expiresAt)) := by
  rw [srem, h]

theorem pexpireat_some {e : Entry S} (h : db.keys k = some e) :
    pexpireat k at_ db = (.ok (), db.put k (e.until at_ db.now)) := by
  rw [pexpireat, h]

/-- A key that expires at a time never expires sooner for it. -/
theorem pexpireatGt_some {value : Value S} {old : ℤ} (h : db.keys k = some ⟨value, some old⟩) :
    pexpireatGt k at_ db =
      if old < at_ then (.ok (), db.put k (Entry.until ⟨value, some old⟩ at_ db.now))
      else (.ok (), db) := by
  rw [pexpireatGt, h]
  simp only [pexpireat_some h]

end Writes

/-! ## What a script leaves alone -/

/-- A script that writes no key but these, whether it answers or faults. -/
def Only (K : S → Prop) (x : Script S α) : Prop :=
  ∀ db, (x db).2.now = db.now ∧ ∀ k, ¬K k → (x db).2.keys k = db.keys k

section Only

variable {K : S → Prop} {x : Script S α} {k member value field : S} {a : α} {e : Fault S}

theorem Only.pure : Only K (pure a : Script S α) := fun _ => ⟨rfl, fun _ _ => rfl⟩

theorem Only.fault : Only K (fault e : Script S α) := fun _ => ⟨rfl, fun _ _ => rfl⟩

/-- **One script after another** writes what either does. -/
theorem Only.bind {f : α → Script S β} (hx : Only K x) (hf : ∀ a, Only K (f a)) :
    Only K (x >>= f) := by
  intro db
  cases hrun : x db with
  | mk result db' =>
    have hleft := hx db
    rw [hrun] at hleft
    cases result with
    | ok a =>
      rw [bind_ok hrun]
      obtain ⟨hnow, hkeys⟩ := hf a db'
      exact ⟨hnow.trans hleft.1, fun k hk => (hkeys k hk).trans (hleft.2 k hk)⟩
    | error e =>
      rw [bind_error hrun]
      exact hleft

theorem Only.map {f : α → β} (hx : Only K x) : Only K (f <$> x) := hx.bind fun _ => .pure

/-- **A loop** writes what a round of it does. -/
theorem Only.foldlM {τ : Type} {f : β → τ → Script S β} (hf : ∀ b a, Only K (f b a)) (l : List τ)
    (b : β) : Only K (l.foldlM f b) := by
  induction l generalizing b with
  | nil => exact .pure
  | cons a l ih =>
    rw [List.foldlM_cons]
    exact (hf b a).bind fun b' => ih b'

/-- A script that leaves the keyspace as it is. -/
theorem Only.of_reads (h : ∀ db, (x db).2 = db) : Only K x := fun db => by
  rw [h]
  exact ⟨rfl, fun _ _ => rfl⟩

theorem only_existsKey : Only K (existsKey k) := .of_reads fun _ => rfl

theorem only_get : Only K (get k) := .of_reads fun db => by
  rw [get]
  split <;> rfl

theorem only_hgetall : Only K (hgetall k) := .of_reads fun db => by
  rw [hgetall]
  split <;> rfl

theorem only_smembers : Only K (smembers k) := .of_reads fun db => by
  rw [smembers]
  split <;> rfl

theorem only_pttl : Only K (pttl k) := .of_reads fun db => by
  rw [pttl]
  split <;> rfl

/-- A script that writes one key at most. -/
theorem Only.of_away (h : ∀ db, Away k db (x db).2) (hk : K k) : Only K x := fun db =>
  ⟨(h db).1, fun _ hne => (h db).2 _ fun heq => hne (heq ▸ hk)⟩

variable [DecidableEq S]

theorem only_hget : Only K (hget k field) := only_hgetall.map

theorem only_hset {fields : List (S × S)} (hk : K k) : Only K (hset k fields) :=
  .of_away (fun db => by rw [hset]; split <;> first | exact put_away | exact .refl) hk

theorem only_setPxat {at_ : ℤ} (hk : K k) : Only K (setPxat k value at_) :=
  .of_away (fun db => by rw [setPxat]; split <;> first | exact put_away | exact .refl) hk

theorem only_del (hk : K k) : Only K (del k) := .of_away (fun _ => put_away) hk

theorem only_sadd (hk : K k) : Only K (sadd k member) :=
  .of_away (fun db => by rw [sadd]; split <;> first | exact put_away | exact .refl) hk

theorem only_srem (hk : K k) : Only K (srem k member) :=
  .of_away (fun db => by rw [srem]; split <;> first | exact put_away | exact .refl) hk

theorem pexpireat_away {at_ : ℤ} (db : Db S) : Away k db (pexpireat k at_ db).2 := by
  rw [pexpireat]
  split
  · exact .refl
  · exact put_away

theorem only_pexpireat {at_ : ℤ} (hk : K k) : Only K (pexpireat k at_) := .of_away pexpireat_away hk

theorem only_pexpireatGt {at_ : ℤ} (hk : K k) : Only K (pexpireatGt k at_) :=
  .of_away (fun db => by
    rw [pexpireatGt]
    split
    · split
      · exact pexpireat_away db
      · exact .refl
    · exact .refl) hk

end Only

end Keyspace
