import Mathlib.Data.List.Nodup
import Mathlib.Data.List.Induction
import Janus.Machinery.Outcome

/-!
# Machinery/Insertion — sets and maps that remember the order they were filled in

A set is the list of its elements in the order they were first added, and a map the list of its
entries in the order their keys were first put: what a program that iterates over one sees.
-/

namespace Insertion

/-! ## Sets -/

section Sets

variable {α : Type*} [DecidableEq α]

/-- `a` added last, unless it is there. -/
def add (s : List α) (a : α) : List α := if a ∈ s then s else s ++ [a]

/-- Every element of `as` added in turn. -/
def addAll (s as : List α) : List α := as.foldl add s

@[simp] theorem mem_add {s : List α} {a b : α} : b ∈ add s a ↔ b ∈ s ∨ b = a := by
  unfold add
  split
  · exact ⟨Or.inl, fun h => h.elim id (fun h => h ▸ ‹_›)⟩
  · simp

theorem nodup_add {s : List α} {a : α} (h : s.Nodup) : (add s a).Nodup := by
  unfold add
  split
  · exact h
  · rw [← List.concat_eq_append]
    exact h.concat ‹_›

@[simp] theorem addAll_nil (s : List α) : addAll s [] = s := rfl

@[simp] theorem addAll_cons (s as : List α) (a : α) : addAll s (a :: as) = addAll (add s a) as :=
  rfl

@[simp] theorem mem_addAll {s as : List α} {b : α} : b ∈ addAll s as ↔ b ∈ s ∨ b ∈ as := by
  induction as generalizing s with
  | nil => simp
  | cons a as ih => rw [addAll_cons, ih, mem_add, List.mem_cons, or_assoc]

theorem nodup_addAll {s as : List α} (h : s.Nodup) : (addAll s as).Nodup := by
  induction as generalizing s with
  | nil => exact h
  | cons a as ih => exact ih (nodup_add h)

theorem addAll_append (s as bs : List α) : addAll s (as ++ bs) = addAll (addAll s as) bs :=
  List.foldl_append ..

/-- Adding to a set what is in it changes nothing. -/
theorem add_of_mem {s : List α} {a : α} (h : a ∈ s) : add s a = s := if_pos h

/-- **Adding a set is adding what it was filled with.** -/
theorem addAll_addAll (s t as : List α) : addAll s (addAll t as) = addAll (addAll s t) as := by
  induction as generalizing t with
  | nil => rfl
  | cons a as ih =>
    rw [addAll_cons, addAll_cons, ih]
    congr 1
    unfold add
    split
    · rw [if_pos (mem_addAll.mpr (Or.inr ‹_›))]
    · rw [addAll_append]
      rfl

end Sets

/-! ## Maps -/

section Maps

variable {κ ν : Type*} [DecidableEq κ]

/-- What `k` holds. -/
def get : List (κ × ν) → κ → Option ν
  | [], _ => none
  | (k', v) :: m, k => if k' = k then some v else get m k

/-- `v` put under `k`: in place when `k` holds something, last otherwise. -/
def put : List (κ × ν) → κ → ν → List (κ × ν)
  | [], k, v => [(k, v)]
  | (k', v') :: m, k, v => if k' = k then (k, v) :: m else (k', v') :: put m k v

@[simp] theorem get_nil (k : κ) : get ([] : List (κ × ν)) k = none := rfl

theorem get_put (m : List (κ × ν)) (k k' : κ) (v : ν) :
    get (put m k v) k' = if k = k' then some v else get m k' := by
  induction m with
  | nil => rfl
  | cons e m ih =>
    obtain ⟨k₀, v₀⟩ := e
    by_cases h : k₀ = k
    · subst h
      simp only [put, get, if_true]
      split <;> rfl
    · rw [put, if_neg h, get, ih, get]
      by_cases h' : k₀ = k'
      · rw [if_pos h', if_pos h', if_neg (fun e => h (h'.trans e.symm))]
      · rw [if_neg h', if_neg h']

@[simp] theorem get_put_self (m : List (κ × ν)) (k : κ) (v : ν) : get (put m k v) k = some v := by
  rw [get_put, if_pos rfl]

theorem get_put_ne (m : List (κ × ν)) {k k' : κ} (v : ν) (h : k ≠ k') :
    get (put m k v) k' = get m k' := by
  rw [get_put, if_neg h]

theorem map_fst_put (m : List (κ × ν)) (k : κ) (v : ν) :
    (put m k v).map Prod.fst = add (m.map Prod.fst) k := by
  induction m with
  | nil => rfl
  | cons e m ih =>
    obtain ⟨k', v'⟩ := e
    rw [put]
    split
    case isTrue h =>
      subst h
      exact (add_of_mem List.mem_cons_self).symm
    case isFalse h =>
      rw [List.map_cons, ih, List.map_cons, add, add]
      simp only [List.mem_cons, Ne.symm h, false_or]
      split <;> rfl

/-- What is new is put last. -/
theorem put_of_get_none {m : List (κ × ν)} {k : κ} (h : get m k = none) (v : ν) :
    put m k v = m ++ [(k, v)] := by
  induction m with
  | nil => rfl
  | cons e m ih =>
    obtain ⟨k', v'⟩ := e
    rw [get] at h
    split at h
    case isTrue => cases h
    case isFalse hne => rw [put, if_neg hne, ih h, List.cons_append]

/-- Putting what is held already changes nothing. -/
theorem put_of_get {m : List (κ × ν)} {k : κ} {v : ν} (h : get m k = some v) : put m k v = m := by
  induction m with
  | nil => cases h
  | cons e m ih =>
    obtain ⟨k', v'⟩ := e
    rw [get] at h
    rw [put]
    split at h
    case isTrue hk => rw [if_pos hk, hk, Option.some.inj h]
    case isFalse hk => rw [if_neg hk, ih h]

/-- Keys are put once. -/
theorem nodup_put {m : List (κ × ν)} (h : (m.map Prod.fst).Nodup) (k : κ) (v : ν) :
    ((put m k v).map Prod.fst).Nodup := map_fst_put m k v ▸ nodup_add h

/-- `k` and what it holds, taken out. -/
def delete (m : List (κ × ν)) (k : κ) : List (κ × ν) := m.filter fun e => e.1 ≠ k

theorem get_delete (m : List (κ × ν)) (k k' : κ) :
    get (delete m k) k' = if k = k' then none else get m k' := by
  induction m with
  | nil => simp [delete]
  | cons e m ih =>
    obtain ⟨k₀, v₀⟩ := e
    by_cases h : k₀ = k
    · subst h
      rw [delete, List.filter_cons_of_neg (by simp), ← delete, ih, get]
      split
      · rfl
      · rfl
    · rw [delete, List.filter_cons_of_pos (by simpa using h), ← delete, get, ih, get]
      by_cases h' : k₀ = k'
      · rw [if_pos h', if_neg (fun e => h (h'.trans e.symm)), if_pos h']
      · rw [if_neg h', if_neg h']

/-- One value put under the key of each of `as`. -/
theorem get_foldl_put {α : Type*} (as : List α) (f : α → κ) (v : ν) (m : List (κ × ν)) (k : κ) :
    get (as.foldl (fun m a => put m (f a) v) m) k =
      if k ∈ as.map f then some v else get m k := by
  induction as generalizing m with
  | nil => rfl
  | cons a as ih =>
    rw [List.foldl_cons, ih, get_put, List.map_cons]
    by_cases h : f a = k
    · simp [h]
    · simp [h, Ne.symm h]

/-- The key of each of `as` taken out. -/
theorem get_foldl_delete {α : Type*} (as : List α) (f : α → κ) (m : List (κ × ν)) (k : κ) :
    get (as.foldl (fun m a => delete m (f a)) m) k =
      if k ∈ as.map f then none else get m k := by
  induction as generalizing m with
  | nil => rfl
  | cons a as ih =>
    rw [List.foldl_cons, ih, get_delete, List.map_cons]
    by_cases h : f a = k
    · simp [h]
    · simp [h, Ne.symm h]

/-- Every value mapped, in place. -/
def mapValues (f : ν → ν) (m : List (κ × ν)) : List (κ × ν) := m.map fun e => (e.1, f e.2)

@[simp] theorem get_mapValues (f : ν → ν) (m : List (κ × ν)) (k : κ) :
    get (mapValues f m) k = (get m k).map f := by
  induction m with
  | nil => rfl
  | cons e m ih =>
    rw [mapValues, List.map_cons, ← mapValues, get, get, ih]
    split <;> rfl

/-- Every value mapped with its key, in place. -/
theorem get_map {μ : Type*} (f : κ → ν → μ) (m : List (κ × ν)) (k : κ) :
    get (m.map fun e => (e.1, f e.1 e.2)) k = (get m k).map (f k) := by
  induction m with
  | nil => rfl
  | cons e m ih =>
    rw [List.map_cons, get, get, ih]
    split
    case isTrue h => rw [h, Option.map_some]
    case isFalse => rfl

/-- What a key holds is an entry. -/
theorem mem_of_get {m : List (κ × ν)} {k : κ} {v : ν} (h : get m k = some v) : (k, v) ∈ m := by
  induction m with
  | nil => simp at h
  | cons e m ih =>
    obtain ⟨k', v'⟩ := e
    rw [get] at h
    split at h
    · obtain rfl : v' = v := Option.some.inj h
      subst_vars
      exact List.mem_cons_self
    · exact List.mem_cons_of_mem _ (ih h)

/-- A key with an entry holds something. -/
theorem get_isSome_of_mem {m : List (κ × ν)} {k : κ} {v : ν} (h : (k, v) ∈ m) :
    (get m k).isSome := by
  induction m with
  | nil => exact absurd h List.not_mem_nil
  | cons e m ih =>
    obtain ⟨k', v'⟩ := e
    rw [get]
    split
    · rfl
    · rcases List.mem_cons.mp h with h | h
      · exact absurd (congrArg Prod.fst h).symm ‹_›
      · exact ih h

/-- The keys that hold something. -/
theorem mem_keys {m : List (κ × ν)} {k : κ} : k ∈ m.map Prod.fst ↔ (get m k).isSome := by
  rw [List.mem_map]
  constructor
  · rintro ⟨e, he, rfl⟩
    exact get_isSome_of_mem he
  · intro h
    obtain ⟨v, hv⟩ := Option.isSome_iff_exists.mp h
    exact ⟨_, mem_of_get hv, rfl⟩

/-- What an entry holds, its key has, where every key is put once. -/
theorem get_of_mem {m : List (κ × ν)} (hnodup : (m.map Prod.fst).Nodup) {k : κ} {v : ν}
    (h : (k, v) ∈ m) : get m k = some v := by
  induction m with
  | nil => exact absurd h List.not_mem_nil
  | cons e m ih =>
    obtain ⟨k', v'⟩ := e
    rw [List.map_cons, List.nodup_cons] at hnodup
    rw [get]
    rcases List.mem_cons.mp h with heq | hm
    · cases heq
      rw [if_pos rfl]
    · have hne : k' ≠ k := by
        rintro rfl
        exact hnodup.1 (List.mem_map.mpr ⟨_, hm, rfl⟩)
      rw [if_neg hne, ih hnodup.2 hm]

theorem nodup_delete {m : List (κ × ν)} (h : (m.map Prod.fst).Nodup) (k : κ) :
    ((delete m k).map Prod.fst).Nodup := h.sublist (List.filter_sublist.map _)

/-- What a key holds once some entries are left out. -/
theorem get_filter {m : List (κ × ν)} (hnodup : (m.map Prod.fst).Nodup) (p : κ × ν → Bool) (k : κ) :
    get (m.filter p) k = (get m k).filter fun v => p (k, v) := by
  induction m with
  | nil => rfl
  | cons e m ih =>
    obtain ⟨k', v⟩ := e
    obtain ⟨hnew, hnodup⟩ := List.nodup_cons.mp hnodup
    rw [List.filter_cons]
    by_cases hk : k' = k
    · subst hk
      have hnone : get (m.filter p) k' = none := by
        rw [ih hnodup, Option.filter_eq_none_iff]
        exact fun v' hget => absurd (List.mem_map.mpr ⟨_, mem_of_get hget, rfl⟩) hnew
      split <;> simp_all [get, Option.filter_some]
    · split <;> simp [get, hk, ih hnodup]

theorem mem_put {m : List (κ × ν)} {k : κ} {v : ν} {e : κ × ν} (h : e ∈ put m k v) :
    e = (k, v) ∨ e ∈ m := by
  induction m with
  | nil => exact Or.inl (List.mem_singleton.mp h)
  | cons e' m ih =>
    obtain ⟨k', v'⟩ := e'
    rw [put] at h
    split at h
    · exact (List.mem_cons.mp h).imp id (List.mem_cons_of_mem _)
    · rcases List.mem_cons.mp h with h | h
      · exact Or.inr (h ▸ List.mem_cons_self)
      · exact (ih h).imp id (List.mem_cons_of_mem _)

/-- A list by a key of its elements: of those that share one, the last. -/
def indexBy {α : Type*} (key : α → κ) (as : List α) : List (κ × α) :=
  as.foldl (fun m a => put m (key a) a) []

section IndexBy

variable {α : Type*} {key : α → κ} {as : List α}

theorem indexBy_concat (a : α) : indexBy key (as ++ [a]) = put (indexBy key as) (key a) a :=
  List.foldl_concat ..

/-- An entry is an element under its key. -/
theorem mem_indexBy {e : κ × α} (h : e ∈ indexBy key as) : e.1 = key e.2 ∧ e.2 ∈ as := by
  induction as using List.reverseRecOn with
  | nil => exact absurd h List.not_mem_nil
  | append_singleton as a ih =>
    rw [indexBy_concat] at h
    obtain rfl | h := mem_put h
    · exact ⟨rfl, List.mem_append_right _ (List.mem_singleton_self _)⟩
    · exact ⟨(ih h).1, List.mem_append_left _ (ih h).2⟩

/-- A key holds something when an element has it. -/
theorem isSome_get_indexBy {k : κ} : (get (indexBy key as) k).isSome ↔ ∃ a ∈ as, key a = k := by
  induction as using List.reverseRecOn with
  | nil => simp [indexBy]
  | append_singleton as a ih =>
    rw [indexBy_concat, get_put]
    by_cases h : key a = k
    · simp [h]
    · rw [if_neg h, ih]
      simp [or_and_right, exists_or, h]

/-- What is kept is kept once, filtered or not. -/
theorem nodup_values_filter_indexBy (p : κ × α → Bool) :
    (((indexBy key as).filter p).map Prod.snd).Nodup := by
  have hkeys : ((indexBy key as).map Prod.fst).Nodup := by
    induction as using List.reverseRecOn with
    | nil => exact List.nodup_nil
    | append_singleton as a ih =>
      rw [indexBy_concat]
      exact nodup_put ih _ _
  refine List.Nodup.of_map key ?_
  rw [List.map_map]
  have hfst : ((indexBy key as).filter p).map (key ∘ Prod.snd) =
    ((indexBy key as).filter p).map Prod.fst :=
    List.map_congr_left fun e he => (mem_indexBy (List.mem_of_mem_filter he)).1.symm
  rw [hfst]
  exact hkeys.sublist (List.filter_sublist.map _)

/-- Where keys tell elements apart, the entries are the elements. -/
theorem mem_values_indexBy (hkey : ∀ a ∈ as, ∀ b ∈ as, key a = key b → a = b) {a : α} :
    a ∈ (indexBy key as).map Prod.snd ↔ a ∈ as := by
  rw [List.mem_map]
  constructor
  · rintro ⟨e, he, rfl⟩
    exact (mem_indexBy he).2
  · intro ha
    obtain ⟨b, hb⟩ : ∃ b, get (indexBy key as) (key a) = some b :=
      Option.isSome_iff_exists.mp (isSome_get_indexBy.mpr ⟨a, ha, rfl⟩)
    obtain ⟨heq, hmem⟩ := mem_indexBy (mem_of_get hb)
    exact ⟨_, mem_of_get hb, (hkey _ ha _ hmem heq).symm⟩

end IndexBy

end Maps

/-! ## Maps read entry by entry -/

section MapEntries

variable {κ ν μ : Type} {ε : Type*}

/-- Every value read with its key, in place; the first that fails is the failure. -/
def mapEntries (f : κ → ν → Except ε μ) (m : List (κ × ν)) : Except ε (List (κ × μ)) :=
  m.mapM fun e => do pure (e.1, ← f e.1 e.2)

variable {f : κ → ν → Except ε μ} {m : List (κ × ν)} {m' : List (κ × μ)}

/-- **Entry by entry**, each read under its own key. -/
theorem mapEntries_ok (h : mapEntries f m = .ok m') :
    List.Forall₂ (fun e e' => e'.1 = e.1 ∧ f e.1 e.2 = .ok e'.2) m m' := by
  refine (List.mapM_oks h).imp fun e e' he => ?_
  obtain ⟨v, hv, he⟩ := Except.bind_ok.mp he
  obtain rfl := Except.pure_ok.mp he
  exact ⟨rfl, hv⟩

theorem map_fst_mapEntries (h : mapEntries f m = .ok m') : m'.map Prod.fst = m.map Prod.fst := by
  have hall := mapEntries_ok h
  clear h
  induction hall with
  | nil => rfl
  | cons he _ ih => rw [List.map_cons, List.map_cons, he.1, ih]

/-- An entry was read from one. -/
theorem exists_of_mem_mapEntries (h : mapEntries f m = .ok m') {e' : κ × μ} (he : e' ∈ m') :
    ∃ v, (e'.1, v) ∈ m ∧ f e'.1 v = .ok e'.2 := by
  obtain ⟨⟨k, v⟩, hmem, hk, hv⟩ := (mapEntries_ok h).flip.exists_right he
  dsimp only at hk hv
  exact ⟨v, hk ▸ hmem, hk ▸ hv⟩

variable [DecidableEq κ]

/-- **What a key holds was read from what it held.** -/
theorem get_mapEntries (h : mapEntries f m = .ok m') (k : κ) :
    match get m k with
    | none => get m' k = none
    | some v => ∃ v', get m' k = some v' ∧ f k v = .ok v' := by
  have hall := mapEntries_ok h
  clear h
  induction hall with
  | nil => rfl
  | @cons e e' m m' he _ ih =>
    obtain ⟨k₁, v⟩ := e
    obtain ⟨k₂, v'⟩ := e'
    obtain ⟨rfl, hv⟩ := he
    rw [get, get]
    by_cases hk : k₂ = k
    · rw [if_pos hk, if_pos hk]
      exact ⟨v', rfl, hk ▸ hv⟩
    · rw [if_neg hk, if_neg hk]
      exact ih

theorem get_mapEntries_some (h : mapEntries f m = .ok m') {k : κ} {v' : μ}
    (hget : get m' k = some v') :
    ∃ v, get m k = some v ∧ f k v = .ok v' := by
  have hread := get_mapEntries h k
  split at hread
  · rw [hread] at hget
    cases hget
  case h_2 v hv =>
    obtain ⟨v'', hv'', hf⟩ := hread
    cases hget.symm.trans hv''
    exact ⟨v, hv, hf⟩

end MapEntries

end Insertion
