import Janus.Auth.Creation

/-!
# Auth/Created — calls of one key create one user

Until somebody inserts, the users are as they were and everybody is looking or about to insert
(`Open`); from then on one call has made the user, and every other finds that one, whether it reads
before it inserts or after it is refused (`Closed`).  So of every interleaving of valid calls for
one key (`findOrCreate_creates_one`).
-/

namespace Janus.Auth.Creation

open Js Insertion Calls

/-! ## The users, before and after the insert -/

section Users

variable {users : List (Str × UserRecord)} {record : UserRecord} {type login : Str}

/-- **The user inserted is who its logins find.** -/
theorem userByLogin_put (hid : get users record.id = none)
    (hnone : userByLogin users type login = none)
    (htype : record.type = type) (hlogin : login ∈ record.logins) :
    userByLogin (put users record.id record) type login = some record := by
  rw [userByLogin, List.findSome?_eq_none_iff] at hnone
  rw [userByLogin, put_of_get_none hid, List.map_append, List.findSome?_append,
    List.findSome?_eq_none_iff.mpr, ← put_of_get_none hid]
  · simp [htype, hlogin]
  · intro id hmem
    have hne : record.id ≠ id := by
      rintro rfl
      obtain ⟨e, he, hfst⟩ := List.mem_map.mp hmem
      have hsome := get_isSome_of_mem (m := users) (k := record.id) (v := e.2) (hfst ▸ he)
      rw [hid] at hsome
      cases hsome
    rw [← put_of_get_none hid, get_put_ne _ _ hne]
    exact hnone id hmem

/-- Nobody holds its id or its logins: it is inserted. -/
theorem insertUser_free (hid : get users record.id = none)
    (hfree : ∀ login ∈ record.logins, userByLogin users record.type login = none) :
    insertUser users record = (.ok record, put users record.id record) := by
  have htaken : takenBy users record.type record.logins record.id = none :=
    List.find?_eq_none.mpr fun login hlogin => by simp [hfree login hlogin]
  rw [insertUser, hid]
  simp only [htaken]

/-- Somebody else holds one of its logins: it is refused, and nothing is written. -/
theorem insertUser_taken {holder : UserRecord} (hid : get users record.id = none)
    (hlogin : login ∈ record.logins) (hholder : userByLogin users record.type login = some holder)
    (hne : holder.id ≠ record.id) :
    (∃ e, (insertUser users record).1 = .error e) ∧ (insertUser users record).2 = users := by
  cases htaken : takenBy users record.type record.logins record.id with
  | none =>
    have hnot := List.find?_eq_none.mp htaken login hlogin
    simp [hholder, hne] at hnot
  | some collision =>
    have heq : insertUser users record =
        (.error (taken (js "insertUser") record.type collision), users) := by
      rw [insertUser, hid]
      simp only [htaken]
    rw [heq]
    exact ⟨⟨_, rfl⟩, rfl⟩

end Users

/-! ## What a run keeps -/

/-- The events sent so far. -/
def sent {F : Type} (log : List (Entry Call Answer F Failure FoundOrCreated)) : List (Str × Str) :=
  log.filterMap fun
    | .called _ (.created userId userType) _ => some (userId, userType)
    | _ => none

/-- Who is looking, or about to insert, wrote nothing and lost nothing. -/
def Phase.early : Phase → Prop
  | .looking | .free _ => True
  | _ => False

/-- …and where a call may stand once another made this user. -/
def Phase.beside (record : UserRecord) : Phase → Prop
  | .looking | .free _ | .lost => True
  | .found other => other = record
  | _ => False

/-- The draw a call is about to insert under. -/
def Phase.drawn : Phase → Option ℕ
  | .free drawn => drawn
  | _ => none

section Kept

variable (ctx : Context) (type : ResolvedType) (at_ : At) (wanted : Str)
  (hlower : ∀ text, isStorable text = true → isStorable (ctx.runtime.toLowerCase text) = true)
  (before : World)

abbrev Locals := ℕ → Option (Request × Phase)

/-- **Nobody inserted.** -/
structure Open (w : World) (log : List (Entry Call Answer Request Failure FoundOrCreated))
    (m : Locals) :
    Prop where
  users_eq : w.users = before.users
  sent_eq : sent log = []
  early : ∀ i f p, m i = some (f, p) → Phase.early p

/-- **One call inserted this user**, and told of it or is about to. -/
structure Closed (w : World) (log : List (Entry Call Answer Request Failure FoundOrCreated))
    (m : Locals)
    (i : ℕ) (record : UserRecord) (told : Bool) : Prop where
  made : ∃ f, m i = some (f, .made record told)
  makes : ∃ n, Makes ctx type wanted before.users record n ∧ before.draws ≤ n ∧ n < w.draws ∧
    ∀ j f p, m j = some (f, p) → Phase.drawn p ≠ some n
  users_eq : w.users = put before.users record.id record
  sent_eq : sent log = if told then [(record.id, record.type)] else []
  beside : ∀ j f p, j ≠ i → m j = some (f, p) → Phase.beside record p

/-- **What every run of calls of one key keeps.** -/
structure Inv (w : World) (log : List (Entry Call Answer Request Failure FoundOrCreated))
    (m : Locals) :
    Prop where
  booked : (protocol ctx type at_ wanted before.users hlower).Booked log m
  nobody : ∀ i f, .began i f ∈ log → userByLogin before.users type.name wanted = none
  grows : before.draws ≤ w.draws
  drawn : ∀ i f p n, m i = some (f, p) → Phase.drawn p = some n → before.draws ≤ n ∧ n < w.draws
  apart : ∀ i j f g p q n, m i = some (f, p) → m j = some (g, q) → Phase.drawn p = some n →
    Phase.drawn q = some n → i = j
  state : Open before w log m ∨ ∃ i record told, Closed ctx type wanted before w log m i record told

variable {ctx type at_ wanted hlower before}
  {w w' : World} {log : List (Entry Call Answer Request Failure FoundOrCreated)}
  {m : Locals} {i : ℕ}
  {f : Request} {p p' : Phase} {j : ℕ} {record : UserRecord} {told : Bool}

theorem sent_concat_called {F : Type} {log : List (Entry Call Answer F Failure FoundOrCreated)}
    {c : Call}
    {r : Answer c} (hc : ∀ userId userType, c ≠ .created userId userType) :
    sent (log ++ [.called i c r]) = sent log := by
  cases c with
  | created userId userType => exact absurd rfl (hc userId userType)
  | of c => exact List.filterMap_append.trans (List.append_nil _)
  | insertUser record => exact List.filterMap_append.trans (List.append_nil _)

/-- A step that draws nothing, or the next draw, keeps the draws apart. -/
theorem Inv.draws_called (h : Inv ctx type at_ wanted hlower before w log m)
    (hi : m i = some (f, p))
    (p' : Phase) (hle : w.draws ≤ w'.draws) (hdrawn : ∀ n, Phase.drawn p' = some n →
      Phase.drawn p = some n ∨ n = w.draws ∧ n < w'.draws) :
    (∀ j g q n, Function.update m i (some (f, p')) j = some (g, q) → Phase.drawn q = some n →
      before.draws ≤ n ∧ n < w'.draws) ∧
    ∀ j k g g' q q' n, Function.update m i (some (f, p')) j = some (g, q) →
      Function.update m i (some (f, p')) k = some (g', q') → Phase.drawn q = some n →
      Phase.drawn q' = some n → j = k := by
  -- whoever stands where it stood drew before this step
  have hself : ∀ n, Phase.drawn p' = some n → (before.draws ≤ n ∧ n < w'.draws) ∧
      ∀ k g q, k ≠ i → m k = some (g, q) → Phase.drawn q ≠ some n := by
    intro n hn
    obtain hn | ⟨rfl, hlt⟩ := hdrawn n hn
    · obtain ⟨hge, hlt⟩ := h.drawn i f p n hi hn
      exact ⟨⟨hge, Nat.lt_of_lt_of_le hlt hle⟩, fun k g q hk hm hq =>
        hk (h.apart k i g f q p n hm hi hq hn)⟩
    · exact ⟨⟨h.grows, hlt⟩, fun k g q _ hm hq => Nat.lt_irrefl _ (h.drawn k g q _ hm hq).2⟩
  refine ⟨fun j g q n hj hq => ?_, fun j k g g' q q' n hj hk hq hq' => ?_⟩
  · obtain ⟨rfl, heq⟩ | ⟨-, hj⟩ := update_eq_some.mp hj
    · cases heq
      exact (hself n hq).1
    · obtain ⟨hge, hlt⟩ := h.drawn j g q n hj hq
      exact ⟨hge, Nat.lt_of_lt_of_le hlt hle⟩
  · obtain ⟨hji, heq⟩ | ⟨hji, hj⟩ := update_eq_some.mp hj <;>
      obtain ⟨hki, heq'⟩ | ⟨hki, hk⟩ := update_eq_some.mp hk
    · exact hji.trans hki.symm
    · cases heq
      exact absurd hq' ((hself n hq).2 k g' q' hki hk)
    · cases heq'
      exact absurd hq ((hself n hq').2 j g q hji hj)
    · exact h.apart j k g g' q q' n hj hk hq hq'

/-- The insert of a call that read nobody: the first makes its user, and every later one is refused.
-/
theorem Inv.insert_cases (h : Inv ctx type at_ wanted hlower before w log m)
    (hfresh : ∀ t n, before.draws ≤ n → get before.users (ctx.runtime.id t n) = none) {n : ℕ}
    (hi : m i = some (f, .free (some n))) {record : UserRecord}
    (hmakes : Makes ctx type wanted before.users record n) :
    (Open before w log m ∧ insertUser w.users record =
      (.ok record, put before.users record.id record)) ∨
    ∃ j made told, Closed ctx type wanted before w log m j made told ∧ j ≠ i ∧
      (∃ e, (insertUser w.users record).1 = .error e) ∧ (insertUser w.users record).2 =
      w.users := by
  obtain ⟨hge, hlt⟩ := h.drawn i f _ n hi rfl
  obtain ⟨t, hid⟩ := hmakes.minted
  have hnew : get before.users record.id = none := hid ▸ hfresh t n hge
  obtain hopen | ⟨j, made, told, hclosed⟩ := h.state
  · refine Or.inl ⟨hopen, ?_⟩
    rw [hopen.users_eq]
    exact insertUser_free hnew fun login hlogin => hmakes.type_eq ▸ hmakes.free login hlogin
  · obtain ⟨n', hmakes', hge', -, hdrawn⟩ := hclosed.makes
    obtain ⟨t', hid'⟩ := hmakes'.minted
    have hne : made.id ≠ record.id := by
      rw [hid, hid']
      intro heq
      exact hdrawn i f _ hi (congrArg some (ctx.runtime.id_injective heq).symm)
    refine Or.inr ⟨j, made, told, hclosed, ?_, ?_⟩
    · rintro rfl
      obtain ⟨g, hg⟩ := hclosed.made
      cases hi.symm.trans hg
    · rw [hclosed.users_eq]
      have hmade : get before.users made.id = none := hid' ▸ hfresh t' n' hge'
      have hholder : userByLogin (put before.users made.id made) record.type wanted = some made :=
        userByLogin_put hmade (hmakes.type_eq ▸ hmakes'.free wanted hmakes'.wanted_mem)
          (hmakes'.type_eq.trans hmakes.type_eq.symm) hmakes'.wanted_mem
      exact insertUser_taken ((get_put_ne _ _ hne).trans hnew) hmakes.wanted_mem hholder hne

/-- A key read: nobody before the insert, and the user inserted after. -/
theorem Inv.read_cases (h : Inv ctx type at_ wanted hlower before w log m)
    (hfresh : ∀ t n, before.draws ≤ n → get before.users (ctx.runtime.id t n) = none)
    (hi : m i = some (f, p)) :
    (Open before w log m ∧ userByLogin w.users type.name wanted = none) ∨
    ∃ j made told, Closed ctx type wanted before w log m j made told ∧
      userByLogin w.users type.name wanted = some made ∧ named ctx type wanted made = true := by
  obtain hopen | ⟨j, made, told, hclosed⟩ := h.state
  · exact Or.inl ⟨hopen, hopen.users_eq ▸ h.nobody i f (h.booked.asked i f p hi)⟩
  · obtain ⟨n, hmakes, hge, -⟩ := hclosed.makes
    obtain ⟨t, hid⟩ := hmakes.minted
    refine Or.inr ⟨j, made, told, hclosed, ?_, hmakes.named_eq⟩
    rw [hclosed.users_eq]
    exact userByLogin_put (hid ▸ hfresh t n hge) (hmakes.free wanted hmakes.wanted_mem)
      hmakes.type_eq hmakes.wanted_mem

/-! ### One step -/

/-- A step that leaves nobody's insert in question keeps the state open. -/
theorem Open.called (h : Open before w log m) (hi : m i = some (f, p)) (husers : w'.users = w.users)
    (hp' : Phase.early p') {c : Call} {r : Answer c} (hc : ∀ userId userType,
    c ≠ .created userId userType) :
    Open before w' (log ++ [.called i c r]) (Function.update m i (some (f, p'))) := by
  refine ⟨husers.trans h.users_eq, (sent_concat_called hc).trans h.sent_eq, fun j g q hj => ?_⟩
  obtain ⟨rfl, heq⟩ | ⟨-, hj⟩ := update_eq_some.mp hj
  · cases heq
    exact hp'
  · exact h.early j g q hj

/-- …and one beside the user inserted keeps it closed. -/
theorem Closed.called (h : Closed ctx type wanted before w log m j record told) (hj : i ≠ j)
    (hi : m i = some (f, p)) (husers : w'.users = w.users) (hle : w.draws ≤ w'.draws)
    (hp' : Phase.beside record p') (hdrawn : ∀ n, Phase.drawn p' = some n →
      Phase.drawn p = some n ∨ n = w.draws ∧ n < w'.draws)
    {c : Call} {r : Answer c} (hc : ∀ userId userType, c ≠ .created userId userType) :
    Closed ctx type wanted before w' (log ++ [.called i c r]) (Function.update m i (some (f, p'))) j
      record told := by
  obtain ⟨g, hg⟩ := h.made
  obtain ⟨n, hmakes, hge, hlt, hnot⟩ := h.makes
  refine ⟨⟨g, (Function.update_of_ne hj.symm ..).trans hg⟩,
    ⟨n, hmakes, hge, Nat.lt_of_lt_of_le hlt hle, fun k g' q hk => ?_⟩, husers.trans h.users_eq,
    (sent_concat_called hc).trans h.sent_eq, fun k g' q hkj hk => ?_⟩
  · obtain ⟨rfl, heq⟩ | ⟨-, hk⟩ := update_eq_some.mp hk
    · cases heq
      intro hn
      obtain hn | ⟨rfl, -⟩ := hdrawn n hn
      · exact hnot k f p hi hn
      · exact Nat.lt_irrefl _ hlt
    · exact hnot k g' q hk
  · obtain ⟨rfl, heq⟩ | ⟨-, hk⟩ := update_eq_some.mp hk
    · cases heq
      exact hp'
    · exact h.beside k g' q hkj hk

/-- A step that writes no user and tells nothing, early and beside a user inserted alike. -/
theorem Inv.called_quiet (h : Inv ctx type at_ wanted hlower before w log m)
    (hi : m i = some (f, p))
    (hnew : ∀ r, .ended i r ∉ log) (husers : w'.users = w.users) (hle : w.draws ≤ w'.draws)
    (hearly : Phase.early p) (hp' : Phase.early p') (hdrawn : ∀ n, Phase.drawn p' = some n →
      Phase.drawn p = some n ∨ n = w.draws ∧ n < w'.draws)
    {c : Call} {r : Answer c} (hc : ∀ userId userType, c ≠ .created userId userType) :
    Inv ctx type at_ wanted hlower before w' (log ++ [.called i c r])
      (Function.update m i (some (f, p'))) := by
  obtain ⟨hbounds, hapart⟩ := h.draws_called hi p' hle hdrawn
  refine ⟨h.booked.concat_called hi hnew, fun j g hj => h.nobody j g (by simpa using hj),
    h.grows.trans hle, hbounds, hapart, ?_⟩
  obtain hopen | ⟨j, made, told, hclosed⟩ := h.state
  · exact Or.inl (hopen.called hi husers hp' hc)
  · refine Or.inr ⟨j, made, told, hclosed.called ?_ hi husers hle ?_ hdrawn hc⟩
    · rintro rfl
      obtain ⟨g, hg⟩ := hclosed.made
      cases hi.symm.trans hg
      exact hearly
    · cases p' with
      | looking => trivial
      | free drawn => trivial
      | _ => exact hp'.elim

/-- A call ended beside the user inserted. -/
theorem Inv.called_beside (h : Inv ctx type at_ wanted hlower before w log m)
    (hi : m i = some (f, p))
    (hnew : ∀ r, .ended i r ∉ log) (hclosed : Closed ctx type wanted before w log m j record told)
    (hj : i ≠ j) (husers : w'.users = w.users) (hdraws : w'.draws = w.draws)
    (hp' : Phase.beside record p') (hdrawn : Phase.drawn p' = none)
    {c : Call} {r : Answer c} (hc : ∀ userId userType, c ≠ .created userId userType) :
    Inv ctx type at_ wanted hlower before w' (log ++ [.called i c r])
      (Function.update m i (some (f, p'))) := by
  have hnone : ∀ n, Phase.drawn p' = some n → Phase.drawn p = some n ∨ n = w.draws ∧ n < w'.draws :=
    fun n hn => by rw [hdrawn] at hn; cases hn
  obtain ⟨hbounds, hapart⟩ := h.draws_called hi p' hdraws.ge hnone
  exact ⟨h.booked.concat_called hi hnew, fun j g hj => h.nobody j g (by simpa using hj),
    h.grows.trans hdraws.ge, hbounds, hapart,
    Or.inr ⟨j, record, told, hclosed.called hj hi husers hdraws.ge hp' hnone hc⟩⟩

/-- The user inserted. -/
theorem Inv.called_made (h : Inv ctx type at_ wanted hlower before w log m) {n : ℕ}
    (hi : m i = some (f, .free (some n))) (hnew : ∀ r, .ended i r ∉ log)
    (hmakes : Makes ctx type wanted before.users record n) (hopen : Open before w log m)
    (husers : w'.users = put before.users record.id record) (hdraws : w'.draws = w.draws)
    {r : Answer (.insertUser record)} :
    Inv ctx type at_ wanted hlower before w' (log ++ [.called i (.insertUser record) r])
      (Function.update m i (some (f, .made record false))) := by
  obtain ⟨hbounds, hapart⟩ := h.draws_called hi (.made record false) hdraws.ge nofun
  obtain ⟨hge, hlt⟩ := h.drawn i f _ n hi rfl
  refine ⟨h.booked.concat_called hi hnew, fun j g hj => h.nobody j g (by simpa using hj),
    h.grows.trans hdraws.ge, hbounds, hapart,
    Or.inr ⟨i, record, false, ⟨f, Function.update_self ..⟩,
      ⟨n, hmakes, hge, hdraws ▸ hlt, fun j g q hj hq => ?_⟩, husers,
      (sent_concat_called (by nofun)).trans hopen.sent_eq, fun j g q hji hj => ?_⟩⟩
  · obtain ⟨rfl, heq⟩ | ⟨hji, hj⟩ := update_eq_some.mp hj
    · cases heq
      cases hq
    · exact hji (h.apart j i g f q _ n hj hi hq rfl)
  · obtain ⟨rfl, -⟩ | ⟨-, hj⟩ := update_eq_some.mp hj
    · exact absurd rfl hji
    · have hearly := hopen.early j g q hj
      cases q with
      | looking => trivial
      | free drawn => trivial
      | _ => exact hearly.elim

/-- The event sent. -/
theorem Inv.called_tell (h : Inv ctx type at_ wanted hlower before w log m)
    (hi : m i = some (f, .made record false)) (hnew : ∀ r, .ended i r ∉ log)
    {r : Answer (.created record.id record.type)} :
    Inv ctx type at_ wanted hlower before w (log ++ [.called i (.created record.id record.type) r])
      (Function.update m i (some (f, .made record true))) := by
  obtain ⟨hbounds, hapart⟩ := h.draws_called hi (.made record true) (Nat.le_refl _) nofun
  refine ⟨h.booked.concat_called hi hnew, fun j g hj => h.nobody j g (by simpa using hj), h.grows,
    hbounds, hapart, Or.inr ?_⟩
  obtain hopen | ⟨j, made, told, hclosed⟩ := h.state
  · exact (hopen.early i f _ hi).elim
  obtain rfl : i = j := by
    by_contra hij
    exact hclosed.beside i f _ hij hi
  obtain ⟨g, hg⟩ := hclosed.made
  cases hi.symm.trans hg
  obtain ⟨n, hmakes, hge, hlt, hnot⟩ := hclosed.makes
  have hsent : sent (log ++ [.called i (.created record.id record.type) r]) =
      sent log ++ [(record.id, record.type)] := List.filterMap_append
  refine ⟨i, record, true, ⟨f, Function.update_self ..⟩, ⟨n, hmakes, hge, hlt, fun j g q hj => ?_⟩,
    hclosed.users_eq, hsent.trans (by rw [hclosed.sent_eq]; rfl), fun j g q hji hj => ?_⟩
  · obtain ⟨rfl, heq⟩ | ⟨-, hj⟩ := update_eq_some.mp hj
    · cases heq
      exact nofun
    · exact hnot j g q hj
  · obtain ⟨rfl, -⟩ | ⟨-, hj⟩ := update_eq_some.mp hj
    · exact absurd rfl hji
    · exact hclosed.beside j g q hji hj

/-- **A step keeps it.** -/
theorem Inv.called (h : Inv ctx type at_ wanted hlower before w log m)
    (hfresh : ∀ t n, before.draws ≤ n → get before.users (ctx.runtime.id t n) = none)
    (hi : m i = some (f, p)) (hnew : ∀ r, .ended i r ∉ log) {c : Call} {r : Answer c}
    (hexec : exec c w = (r, w')) (hstep : Step ctx type wanted before.users p c r p') :
    Inv ctx type at_ wanted hlower before w' (log ++ [.called i c r])
      (Function.update m i (some (f, p'))) := by
  have hne : ∀ {j made told}, Closed ctx type wanted before w log m j made told →
      (∀ b, p ≠ .made made b) → i ≠ j := by
    rintro j made told hclosed hp rfl
    obtain ⟨g, hg⟩ := hclosed.made
    cases hi.symm.trans hg
    exact hp told rfl
  cases hstep with
  | found hnamed =>
    have hread : userByLogin w.users type.name wanted = some _ := congrArg Prod.fst hexec
    obtain rfl : w = w' := congrArg Prod.snd hexec
    obtain ⟨-, hnone⟩ | ⟨j, made, told, hclosed, hsome, -⟩ := h.read_cases hfresh hi
    · cases hread.symm.trans hnone
    · cases hread.symm.trans hsome
      refine h.called_beside hi hnew hclosed (hne hclosed nofun) rfl rfl ?_ ?_ nofun <;> exact rfl
  | nobody hnobody =>
    obtain rfl : w = w' := congrArg Prod.snd hexec
    refine h.called_quiet hi hnew rfl (Nat.le_refl _) ?_ ?_ ?_ nofun
    · trivial
    · trivial
    · exact fun n hn => Or.inl hn
  | now =>
    obtain rfl : w = w' := congrArg Prod.snd hexec
    refine h.called_quiet hi hnew rfl (Nat.le_refl _) ?_ ?_ ?_ nofun
    · trivial
    · trivial
    · exact fun n hn => Or.inl hn
  | drew =>
    have hread : w.draws = _ := congrArg Prod.fst hexec
    obtain rfl : { w with draws := w.draws + 1 } = w' := congrArg Prod.snd hexec
    refine h.called_quiet hi hnew ?_ (Nat.le_succ _) ?_ ?_ ?_ nofun
    · exact rfl
    · trivial
    · trivial
    · rintro n ⟨⟩
      exact Or.inr ⟨hread.symm, hread ▸ Nat.lt_succ_self _⟩
  | made hmakes =>
    have hanswer : (insertUser w.users _).1 = .ok _ := congrArg Prod.fst hexec
    have hworld : { w with users := (insertUser w.users _).2 } = w' := congrArg Prod.snd hexec
    obtain ⟨hopen, heq⟩ | ⟨j, made, told, -, -, ⟨e, herror⟩, -⟩ := h.insert_cases hfresh hi hmakes
    · rw [heq] at hanswer hworld
      cases hanswer
      refine h.called_made hi hnew hmakes hopen ?_ ?_ <;> rw [← hworld]
    · cases hanswer.symm.trans herror
  | taken hmakes =>
    have hanswer : (insertUser w.users _).1 = .error _ := congrArg Prod.fst hexec
    have hworld : { w with users := (insertUser w.users _).2 } = w' := congrArg Prod.snd hexec
    obtain ⟨-, heq⟩ | ⟨j, made, told, hclosed, hji, -, husers⟩ := h.insert_cases hfresh hi hmakes
    · rw [heq] at hanswer
      cases hanswer
    · refine h.called_beside hi hnew hclosed hji.symm ?_ ?_ ?_ ?_ nofun
      · rw [← hworld]
        exact husers
      · rw [← hworld]
      · trivial
      · exact rfl
  | tell =>
    obtain rfl : w = w' := congrArg Prod.snd hexec
    exact h.called_tell hi hnew
  | won hnamed =>
    have hread : userByLogin w.users type.name wanted = some _ := congrArg Prod.fst hexec
    obtain rfl : w = w' := congrArg Prod.snd hexec
    obtain ⟨hopen, -⟩ | ⟨j, made, told, hclosed, hsome, -⟩ := h.read_cases hfresh hi
    · exact (hopen.early i f _ hi).elim
    · cases hread.symm.trans hsome
      refine h.called_beside hi hnew hclosed (hne hclosed nofun) rfl rfl ?_ ?_ nofun <;> exact rfl
  | gone hgone =>
    have hread : userByLogin w.users type.name wanted = _ := congrArg Prod.fst hexec
    obtain ⟨hopen, -⟩ | ⟨j, made, told, hclosed, hsome, hnamed⟩ := h.read_cases hfresh hi
    · exact (hopen.early i f _ hi).elim
    · dsimp only at hread
      rw [← hread, hsome, Option.filter_some, if_pos hnamed] at hgone
      cases hgone
  | loose =>
    obtain hopen | ⟨j, made, told, hclosed⟩ := h.state
    · exact (hopen.early i f _ hi).elim
    · exact (hclosed.beside i f _ (hne hclosed nofun) hi).elim

/-- A run makes valid calls for one key. -/
def Asks (ctx : Context) (type : ResolvedType) (at_ : At) (wanted : Str)
    (users : List (Str × UserRecord)) (mv : Move Drift Request) : Prop :=
  ∀ f, mv.flow = some f → Valid ctx type (at_ (js "findOrCreate")) wanted users f

/-- Nobody of the type holds a valid call's key. -/
theorem Valid.nobody {users : List (Str × UserRecord)} {where_ : Str}
    (hlower : ∀ text, isStorable text = true → isStorable (ctx.runtime.toLowerCase text) = true)
    (h : Valid ctx type where_ wanted users f) : userByLogin users type.name wanted = none := by
  obtain ⟨key, fields, logins, hcomes, rfl, -, hfree⟩ := h
  exact hfree _ (hcomes.wanted_mem hlower).1

theorem Inv.began_concat (h : Inv ctx type at_ wanted hlower before w log m) (hnone : m i = none)
    (hvalid : Valid ctx type (at_ (js "findOrCreate")) wanted before.users f) :
    Inv ctx type at_ wanted hlower before w (log ++ [.began i f])
      (Function.update m i (some (f, .looking))) := by
  have hback : ∀ {j g q}, Function.update m i (some (f, .looking)) j = some (g, q) →
      (∃ n, Phase.drawn q = some n) → m j = some (g, q) := by
    intro j g q hj hq
    obtain ⟨-, heq⟩ | ⟨-, hj⟩ := update_eq_some.mp hj
    · cases heq
      obtain ⟨n, hn⟩ := hq
      cases hn
    · exact hj
  refine ⟨h.booked.concat_began hnone, fun j g hj => ?_, h.grows,
    fun j g q n hj hq => h.drawn j g q n (hback hj ⟨n, hq⟩) hq,
    fun j k g g' q q' n hj hk hq hq' =>
      h.apart j k g g' q q' n (hback hj ⟨n, hq⟩) (hback hk ⟨n, hq'⟩) hq hq', ?_⟩
  · obtain hj | hj := List.mem_append.mp hj
    · exact h.nobody j g hj
    · cases List.mem_singleton.mp hj
      exact hvalid.nobody hlower
  · have hsent : sent (log ++ [.began i f]) = sent log :=
      List.filterMap_append.trans (List.append_nil _)
    obtain hopen | ⟨j, made, told, hclosed⟩ := h.state
    · refine Or.inl ⟨hopen.users_eq, hsent.trans hopen.sent_eq, fun j g q hj => ?_⟩
      obtain ⟨-, heq⟩ | ⟨-, hj⟩ := update_eq_some.mp hj
      · cases heq
        trivial
      · exact hopen.early j g q hj
    · obtain ⟨g, hg⟩ := hclosed.made
      have hji : j ≠ i := by
        rintro rfl
        rw [hnone] at hg
        cases hg
      obtain ⟨n, hmakes, hge, hlt, hnot⟩ := hclosed.makes
      refine Or.inr ⟨j, made, told, ⟨g, (Function.update_of_ne hji ..).trans hg⟩,
        ⟨n, hmakes, hge, hlt, fun k g' q hk hq => hnot k g' q (hback hk ⟨n, hq⟩) hq⟩,
        hclosed.users_eq, hsent.trans hclosed.sent_eq, fun k g' q hkj hk => ?_⟩
      obtain ⟨-, heq⟩ | ⟨-, hk⟩ := update_eq_some.mp hk
      · cases heq
        trivial
      · exact hclosed.beside k g' q hkj hk

theorem Inv.ended_concat (h : Inv ctx type at_ wanted hlower before w log m)
    (hi : m i = some (f, p))
    {r : Except Failure FoundOrCreated} (hfinal : Final ctx r p) :
    Inv ctx type at_ wanted hlower before w (log ++ [.ended i r]) m := by
  have hsent : sent (log ++ [.ended i r]) = sent log :=
    List.filterMap_append.trans (List.append_nil _)
  refine ⟨h.booked.concat_ended hi hfinal, fun j g hj => h.nobody j g (by simpa using hj), h.grows,
    h.drawn, h.apart, h.state.imp (fun hopen => ?_) ?_⟩
  · exact { hopen with sent_eq := hsent.trans hopen.sent_eq }
  · rintro ⟨j, made, told, hclosed⟩
    exact ⟨j, made, told, { hclosed with sent_eq := hsent.trans hclosed.sent_eq }⟩

/-- **Every move keeps it.** -/
theorem keeps (hfresh : ∀ t n, before.draws ≤ n → get before.users (ctx.runtime.id t n) = none) :
    (protocol ctx type at_ wanted before.users hlower).Keeps (Asks ctx type at_ wanted before.users)
      (Inv ctx type at_ wanted hlower before) where
  drift {w log m e} h _ := by
    cases e <;> exact { h with
      state := h.state.imp (fun hopen => { hopen with }) fun ⟨j, made, told, hclosed⟩ =>
        ⟨j, made, told, { hclosed with }⟩ }
  began {w log m i f} h hnone hok := by
    have hvalid := hok f rfl
    have hstart : (protocol ctx type at_ wanted before.users hlower).start f = .looking :=
      if_pos hvalid
    rw [hstart]
    exact h.began_concat hnone hvalid
  called h hi hnew hexec hstep := h.called hfresh hi hnew hexec hstep
  ended h hi hfinal _ := h.ended_concat hi hfinal

theorem Inv.start (w : World) : Inv ctx type at_ wanted hlower w w [] fun _ => none where
  booked := Protocol.Booked.nil
  nobody _ _ h := absurd h List.not_mem_nil
  grows := Nat.le_refl _
  drawn _ _ _ _ h := by cases h
  apart _ _ _ _ _ _ _ h := by cases h
  state := Or.inl ⟨rfl, rfl, fun _ _ _ h => (by cases h)⟩

end Kept

/-! ## What a run leaves -/

/-- **One user, whatever the interleaving**: what valid calls for one key leave. -/
structure CreatesOne (ctx : Context) (type : ResolvedType) (before : World)
    (s : Sys Call Answer World Request Failure FoundOrCreated) : Prop where
  /-- no call fails, and all answer one user… -/
  answers : ∀ i r, .ended i r ∈ s.log → ∃ a, r = .ok a
  same : ∀ i j a b, .ended i (.ok a) ∈ s.log → .ended j (.ok b) ∈ s.log → a.user.id = b.user.id
  /-- …as one created, at most once -/
  one : ∀ i j a b, .ended i (.ok a) ∈ s.log → .ended j (.ok b) ∈ s.log → a.created = true →
    b.created = true → i = j
  /-- one user at most is stored and told of, and it is who every call answers -/
  stored : s.world.users = before.users ∧ sent s.log = [] ∧ (∀ i r, .ended i r ∉ s.log) ∨
    ∃ record, record.type = type.name ∧ get before.users record.id = none ∧
      s.world.users = before.users ++ [(record.id, record)] ∧
      (sent s.log = [] ∨ sent s.log = [(record.id, record.type)]) ∧
      ∀ i a, .ended i (.ok a) ∈ s.log → a.user = toUser record
  /-- once every call ended, one of them created the user, and told of it -/
  created : (∃ i f, .began i f ∈ s.log) → (∀ i f, .began i f ∈ s.log → ∃ r, .ended i r ∈ s.log) →
    ∃ i a record, .ended i (.ok a) ∈ s.log ∧ a.created = true ∧ a.user = toUser record ∧
      record.type = type.name ∧ get before.users record.id = none ∧
      s.world.users = before.users ++ [(record.id, record)] ∧
      sent s.log = if ctx.events then [(record.id, record.type)] else []

section Leaves

variable {ctx : Context} {type : ResolvedType} {at_ : At} {wanted : Str}
  {hlower : ∀ text, isStorable text = true → isStorable (ctx.runtime.toLowerCase text) = true}
  {before w : World} {log : List (Entry Call Answer Request Failure FoundOrCreated)} {m : Locals}

/-- Nobody ended while nobody inserted. -/
theorem Open.not_ended (h : Open before w log m)
    (hbooked : (protocol ctx type at_ wanted before.users hlower).Booked log m) (i : ℕ)
    (r : Except Failure FoundOrCreated) : .ended i r ∉ log := by
  intro hended
  obtain ⟨f, p, hi, hfinal⟩ := hbooked.ended i r hended
  have hearly := h.early i f p hi
  cases p with
  | looking => exact hfinal
  | free drawn => exact hfinal
  | _ => exact hearly

/-- Who ended made the user inserted, and told of it, or found it. -/
theorem Closed.ended {j : ℕ} {record : UserRecord} {told : Bool}
    (h : Closed ctx type wanted before w log m j record told)
    (hbooked : (protocol ctx type at_ wanted before.users hlower).Booked log m) {i : ℕ}
    {r : Except Failure FoundOrCreated} (hended : .ended i r ∈ log) :
    r = .ok ⟨toUser record, decide (i = j)⟩ ∧ (i = j → told = ctx.events) := by
  obtain ⟨f, p, hi, hfinal⟩ := hbooked.ended i r hended
  by_cases hij : i = j
  · subst hij
    obtain ⟨g, hg⟩ := h.made
    cases hi.symm.trans hg
    obtain ⟨htold, hr⟩ : told = ctx.events ∧ r = .ok ⟨toUser record, true⟩ := hfinal
    exact ⟨by rw [hr, decide_eq_true rfl], fun _ => htold⟩
  · have hbeside := h.beside i f p hij hi
    rw [decide_eq_false hij]
    refine ⟨?_, fun hji => absurd hji hij⟩
    cases p with
    | found other =>
      obtain rfl : other = record := hbeside
      exact hfinal
    | looking => exact hfinal.elim
    | free drawn => exact hfinal.elim
    | lost => exact hfinal.elim
    | _ => exact hbeside.elim

theorem Inv.creates_one (h : Inv ctx type at_ wanted hlower before w log m)
    (hfresh : ∀ t n, before.draws ≤ n → get before.users (ctx.runtime.id t n) = none)
    (threads : List (Request × Flow FoundOrCreated)) :
      CreatesOne ctx type before ⟨w, threads, log⟩ := by
  obtain hopen | ⟨j, record, told, hclosed⟩ := h.state
  · have hnone := hopen.not_ended h.booked
    exact {
      answers := fun i r hr => absurd hr (hnone i r)
      same := fun i _ a _ hi => absurd hi (hnone i _)
      one := fun i _ a _ hi => absurd hi (hnone i _)
      stored := Or.inl ⟨hopen.users_eq, hopen.sent_eq, hnone⟩
      created := fun ⟨i, f, hi⟩ hall => by
        obtain ⟨r, hr⟩ := hall i f hi
        exact absurd hr (hnone i r) }
  · obtain ⟨n, hmakes, hge, -⟩ := hclosed.makes
    obtain ⟨t, hid⟩ := hmakes.minted
    have hnew : get before.users record.id = none := hid ▸ hfresh t n hge
    have husers : w.users = before.users ++ [(record.id, record)] :=
      hclosed.users_eq.trans (put_of_get_none hnew record)
    have hanswer : ∀ i a, .ended i (.ok a) ∈ log → a.user = toUser record ∧
      (a.created = true → i = j) := by
      intro i a hi
      cases (hclosed.ended h.booked hi).1
      exact ⟨rfl, of_decide_eq_true⟩
    exact {
      answers := fun i r hr => ⟨_, (hclosed.ended h.booked hr).1⟩
      same := fun i k a b hi hk => by rw [(hanswer i a hi).1, (hanswer k b hk).1]
      one := fun i k a b hi hk ha hb => ((hanswer i a hi).2 ha).trans ((hanswer k b hk).2 hb).symm
      stored := Or.inr ⟨record, hmakes.type_eq, hnew, husers, by
        rw [hclosed.sent_eq]
        cases told
        · exact Or.inl rfl
        · exact Or.inr rfl, fun i a hi => (hanswer i a hi).1⟩
      created := fun _ hall => by
        obtain ⟨f, hj⟩ := hclosed.made
        obtain ⟨r, hr⟩ := hall j f (h.booked.asked j f _ hj)
        obtain ⟨rfl, htold⟩ := hclosed.ended h.booked hr
        exact ⟨j, _, record, hr, decide_eq_true rfl, rfl, hmakes.type_eq, hnew, husers,
          by rw [← htold rfl]; exact hclosed.sent_eq⟩ }

end Leaves

/-- **Calls of one key create one user.** Whatever the interleaving of valid calls whose keys have
one normal form: every call answers, all the same user, once as created; one user is stored, and its
event sent once. -/
theorem findOrCreate_creates_one (ctx : Context) (type : ResolvedType) (at_ : At)
    (wanted : Str) (w : World)
    (hlower : ∀ text, isStorable text = true → isStorable (ctx.runtime.toLowerCase text) = true)
    (hfresh : ∀ t n, w.draws ≤ n → get w.users (ctx.runtime.id t n) = none)
    (moves : List (Move Drift Request)) (hmoves : ∀ mv ∈ moves, ∀ f, mv.flow = some f →
      Valid ctx type (at_ (js "findOrCreate")) wanted w.users f) :
    CreatesOne ctx type w ((service ctx type at_).run w moves) ∧
    ∀ i f, .began i f ∈ ((service ctx type at_).run w moves).log →
      ∀ more, 7 ≤ more.countP (·.steps i) →
      ∃ r, .ended i r ∈ ((service ctx type at_).run w (moves ++ more)).log := by
  have hkeeps : (protocol ctx type at_ wanted w.users hlower).Keeps _ _ := keeps hfresh
  obtain ⟨m, -, hinv⟩ := hkeeps.run (Inv.start w) hmoves
  exact ⟨hinv.creates_one hfresh _, fun i f hi more hmore =>
    (service ctx type at_).answers (endsIn_findOrCreate at_) w moves more hi hmore⟩

/-! ## Two calls at once -/

/-- Members, who have no password. -/
def member : ResolvedType where
  name := js "member"
  password := none
  email := js "email"
  lifespanMs := 3600000

def clinicAt : At := fun operation => js "janus: members." ++ operation

/-- Nobody yet. -/
def nobodyYet : World := ⟨[], [], [], 0, 0, false⟩

/-- A call for this key, with this e-mail. -/
def asking (key email : Str) : Request where
  key := .str key
  input := { rest := [(js "email", .str email)] }

/-- Bob, asked for twice: both read, both insert. -/
def bothInsert : List (Move Drift Request) :=
  [.begin (asking (js "bob@clinic.test") (js "bob@clinic.test")),
    .begin (asking (js " bob@clinic.test") (js "bob@clinic.test ")), .step 0, .step 1,
    .step 1, .step 1,
    .step 1, .step 0, .step 0, .step 0, .step 0]

/-- A call for Bob is valid, however his address is spaced. -/
theorem valid_bob {key email : Str} (hkey : trim key = js "bob@clinic.test")
    (hemail : trim email = js "bob@clinic.test") (hstorable : isStorable email = true) :
    Valid clinic member (clinicAt (js "findOrCreate")) (js "bob@clinic.test")
      [] (asking key email) := by
  have hnormal : normalizeEmail clinic email = js "bob@clinic.test" := hemail
  have hunstorable : unstorableIn [(js "email", Value.str email)] = [] := by
    rw [unstorableIn, if_neg (by decide)]
    simp only [hstorable, if_true]
    rfl
  refine ⟨key, [(js "email", .str email)], [js "bob@clinic.test"],
    ⟨rfl, ?_, ?_, fun h => absurd rfl h, ?_⟩,
    hkey, fun _ => ?_, fun _ _ => rfl⟩
  · change (if [] ++ unstorableIn [(js "email", Value.str email)] = [] then _ else _) = _
    rw [hunstorable]
    rfl
  · change (if some (normalizeEmail clinic email) = some (trim key) then _ else _) = _
    rw [if_pos (by rw [hnormal, hkey])]
    rfl
  · change Except.ok ([] ++ [normalizeEmail clinic email].filter (· ∉ [])) = _
    rw [hnormal]
    rfl
  · rw [hkey]
    decide

theorem findOrCreate_creates_one_bob :
    CreatesOne clinic member nobodyYet ((service clinic member clinicAt).run nobodyYet bothInsert) ∧
    ∀ i f, .began i f ∈ ((service clinic member clinicAt).run nobodyYet bothInsert).log →
      ∀ more, 7 ≤ more.countP (·.steps i) →
        ∃ r, .ended i r ∈
          ((service clinic member clinicAt).run nobodyYet (bothInsert ++ more)).log := by
  refine findOrCreate_creates_one clinic member clinicAt (js "bob@clinic.test") nobodyYet
    (fun _ h => h)
    (fun _ _ _ => rfl) bothInsert ?_
  intro mv hmv f hf
  simp only [bothInsert, List.mem_cons, List.not_mem_nil, or_false] at hmv
  obtain rfl | rfl | hmv := hmv
  · cases hf
    exact valid_bob (by decide) (by decide) (by decide)
  · cases hf
    exact valid_bob (by decide) (by decide) (by decide)
  · obtain rfl | rfl | rfl | rfl | rfl | rfl | rfl | rfl | rfl := hmv <;> cases hf

/-- **A blank key is nobody's, and a blank e-mail is somebody's**: the second of two calls finds
nobody, is refused the login the first took, and finds nobody again. -/
theorem findOrCreate_blank :
    Comes clinic member (clinicAt (js "findOrCreate"))
    (asking [] []) [] [(js "email", .str [])] [[]] ∧
    ((service clinic member clinicAt).run nobodyYet
      [.begin (asking [] []), .step 0, .step 0, .step 0, .begin (asking [] []), .step 1, .step 1,
        .step 1]).log.getLast? =
      some (.ended 1 (.error (taken (js "insertUser") (js "member") []))) :=
  ⟨⟨rfl, rfl, rfl, fun h => absurd rfl h, rfl⟩, rfl⟩

end Janus.Auth.Creation
