import Janus.Js.Utf8

/-!
# Js/Json — a text written and read as JSON

`read` is a machine: one code unit at a time, a stack of the objects and arrays still open.  So a
text is read as its parts are (`run_append`), and a factor no mode gets past is in no text read.
-/

namespace Js

/-- A value read; a number by its text. -/
inductive Json where
  | null
  | bool (b : Bool)
  | num (text : Str)
  | str (s : Str)
  | arr (items : List Json)
  | obj (fields : List (Str × Json))

namespace Json

/-- `value[name]`: of two fields of one name, the last. -/
def field (name : Str) : Json → Option Json
  | .obj fields => fields.reverse.lookup name
  | _ => none

/-! ## Writing a string -/

/-- A digit of `\u`. -/
def hexDigit (n : ℕ) : CodeUnit := Fin.ofNat 65536 (if n < 10 then 48 + n else 87 + n)

/-- `\u` and four digits. -/
def unicodeEscape (u : CodeUnit) : Str :=
  [92, 117, hexDigit (u.val / 4096 % 16), hexDigit (u.val / 256 % 16), hexDigit (u.val / 16 % 16),
    hexDigit (u.val % 16)]

/-- One code unit, escaped where it has to be. -/
def quoteUnit (u : CodeUnit) : Str :=
  if u = 8 then [92, 98]
  else if u = 9 then [92, 116]
  else if u = 10 then [92, 110]
  else if u = 12 then [92, 102]
  else if u = 13 then [92, 114]
  else if u = 34 then [92, 34]
  else if u = 92 then [92, 92]
  else if u.val < 32 ∨ isHigh u ∨ isLow u then unicodeEscape u
  else [u]

/-- The units of a string between its quotes: a pair of surrogates as it is, a lone one escaped. -/
def quoteUnits : Str → Str
  | [] => []
  | [u] => quoteUnit u
  | u :: v :: rest =>
    if isHigh u ∧ isLow v then u :: v :: quoteUnits rest else quoteUnit u ++ quoteUnits (v :: rest)

/-- `JSON.stringify`, of a string. -/
def quote (s : Str) : Str := 34 :: quoteUnits s ++ [34]

/-! ## The machine -/

/-- An array or an object still open: what it holds so far, and the key whose value comes. -/
inductive Frame where
  | arr (items : List Json)
  | obj (fields : List (Str × Json)) (key : Str)

/-- What a string is read for: a value, or the next key of these fields. -/
inductive Role where
  | value
  | key (fields : List (Str × Json))

/-- The parts of a number. -/
inductive Part where
  | minus
  | zero
  | int
  | dot
  | frac
  | exp
  | sign
  | power

inductive Mode where
  /-- A value comes; right after `[`, or the end of the array. -/
  | value (first : Bool)
  /-- A key comes; right after `{`, or the end of the object. -/
  | key (fields : List (Str × Json)) (first : Bool)
  | colon (fields : List (Str × Json)) (key : Str)
  | after (v : Json)
  | string (role : Role) (read : Str)
  | escape (role : Role) (read : Str)
  | hex (role : Role) (read : Str) (left value : ℕ)
  | number (part : Part) (read : Str)
  /-- `true`, `false` or `null`, so many units of it read. -/
  | word (v : Option Bool) (read : ℕ)

abbrev State := Mode × List Frame

def isWhite (u : CodeUnit) : Bool := u = 9 || u = 10 || u = 13 || u = 32

def isDecimal (u : CodeUnit) : Bool := 48 ≤ u.val && u.val ≤ 57

/-- The value of a digit of `\u`. -/
def hexValue (u : CodeUnit) : Option ℕ :=
  if isDecimal u then some (u.val - 48)
  else if 97 ≤ u.val ∧ u.val ≤ 102 then some (u.val - 87)
  else if 65 ≤ u.val ∧ u.val ≤ 70 then some (u.val - 55)
  else none

/-- What `\` makes of the unit after it. -/
def unescape (u : CodeUnit) : Option CodeUnit :=
  if u = 34 ∨ u = 92 ∨ u = 47 then some u
  else if u = 98 then some 8
  else if u = 102 then some 12
  else if u = 110 then some 10
  else if u = 114 then some 13
  else if u = 116 then some 9
  else none

def wordText : Option Bool → Str
  | some true => js "true"
  | some false => js "false"
  | none => js "null"

def wordValue : Option Bool → Json
  | some b => .bool b
  | none => .null

/-- The number goes on. -/
def Part.next (u : CodeUnit) : Part → Option Part
  | .minus => if u = 48 then some .zero else if isDecimal u then some .int else none
  | .zero => if u = 46 then some .dot else if u = 101 ∨ u = 69 then some .exp else none
  | .int =>
    if isDecimal u then some .int
    else if u = 46 then some .dot
    else if u = 101 ∨ u = 69 then some .exp else none
  | .dot => if isDecimal u then some .frac else none
  | .frac => if isDecimal u then some .frac else if u = 101 ∨ u = 69 then some .exp else none
  | .exp => if u = 43 ∨ u = 45 then some .sign else if isDecimal u then some .power else none
  | .sign | .power => if isDecimal u then some .power else none

/-- The number may end here. -/
def Part.ends : Part → Bool
  | .zero | .int | .frac | .power => true
  | .minus | .dot | .exp | .sign => false

/-- The first unit of a value. -/
def start (stack : List Frame) (u : CodeUnit) : Option State :=
  if u = 34 then some (.string .value [], stack)
  else if u = 123 then some (.key [] true, stack)
  else if u = 91 then some (.value true, .arr [] :: stack)
  else if u = 45 then some (.number .minus [u], stack)
  else if u = 48 then some (.number .zero [u], stack)
  else if isDecimal u then some (.number .int [u], stack)
  else if u = 116 then some (.word (some true) 1, stack)
  else if u = 102 then some (.word (some false) 1, stack)
  else if u = 110 then some (.word none 1, stack)
  else none

/-- An array ends before its first item. -/
def closeEmpty : List Frame → Option State
  | .arr [] :: stack => some (.after (.arr []), stack)
  | _ => none

/-- A unit after a value: white space, or the next of what is open, or its end. -/
def stepAfter (v : Json) (stack : List Frame) (u : CodeUnit) : Option State :=
  if isWhite u then some (.after v, stack)
  else
    match stack with
    | [] => none
    | .arr items :: stack =>
      if u = 44 then some (.value false, .arr (items ++ [v]) :: stack)
      else if u = 93 then some (.after (.arr (items ++ [v])), stack)
      else none
    | .obj fields key :: stack =>
      if u = 44 then some (.key (fields ++ [(key, v)]) false, stack)
      else if u = 125 then some (.after (.obj (fields ++ [(key, v)])), stack)
      else none

/-- A string ends. -/
def Role.close (read : Str) : Role → Mode
  | .value => .after (.str read)
  | .key fields => .colon fields read

def step : State → CodeUnit → Option State
  | (.value first, stack), u =>
    if isWhite u then some (.value first, stack)
    else if u = 93 ∧ first then closeEmpty stack
    else start stack u
  | (.key fields first, stack), u =>
    if isWhite u then some (.key fields first, stack)
    else if u = 34 then some (.string (.key fields) [], stack)
    else if u = 125 ∧ first then some (.after (.obj fields), stack)
    else none
  | (.colon fields key, stack), u =>
    if isWhite u then some (.colon fields key, stack)
    else if u = 58 then some (.value false, .obj fields key :: stack)
    else none
  | (.after v, stack), u => stepAfter v stack u
  | (.string role read, stack), u =>
    if u = 34 then some (role.close read, stack)
    else if u = 92 then some (.escape role read, stack)
    else if u.val < 32 then none
    else some (.string role (read ++ [u]), stack)
  | (.escape role read, stack), u =>
    if u = 117 then some (.hex role read 4 0, stack)
    else (unescape u).map fun v => (.string role (read ++ [v]), stack)
  | (.hex role read left value, stack), u =>
    (hexValue u).map fun digit =>
      if left ≤ 1 then (.string role (read ++ [Fin.ofNat 65536 (value * 16 + digit)]), stack)
      else (.hex role read (left - 1) (value * 16 + digit), stack)
  | (.number part read, stack), u =>
    match part.next u with
    | some part => some (.number part (read ++ [u]), stack)
    | none => if part.ends then stepAfter (.num read) stack u else none
  | (.word v read, stack), u =>
    if (wordText v)[read]? = some u then
      some (if read + 1 = (wordText v).length then .after (wordValue v) else
      .word v (read + 1), stack)
    else none

/-- A text read from a state. -/
def run (s : State) (text : Str) : Option State := text.foldlM step s

/-- What a text that ends here is. -/
def finish : State → Option Json
  | (.after v, []) => some v
  | (.number part read, []) => if part.ends then some (.num read) else none
  | _ => none

/-- `JSON.parse`; nothing where it throws. -/
def parse (text : Str) : Option Json := (run (.value false, []) text).bind finish

/-! ## Reading what was written -/

theorem run_append (s : State) (a b : Str) : run s (a ++ b) = (run s a).bind fun s' => run s' b :=
  List.foldlM_append

theorem run_cons (s : State) (u : CodeUnit) (text : Str) :
    run s (u :: text) = (step s u).bind fun s' => run s' text := List.foldlM_cons

section Reading

variable {role : Role} {stack : List Frame} {read : Str} {u : CodeUnit}

theorem step_string (h34 : u ≠ 34) (h92 : u ≠ 92) (h32 : ¬ u.val < 32) :
    step (.string role read, stack) u = some (.string role (read ++ [u]), stack) := by
  rw [step, if_neg h34, if_neg h92, if_neg h32]

theorem step_hex {left value digit : ℕ} (h : hexValue u = some digit) (hleft : ¬ left ≤ 1) :
    step (.hex role read left value, stack) u =
      some (.hex role read (left - 1) (value * 16 + digit), stack) := by
  rw [step, h, Option.map_some, if_neg hleft]

theorem step_hex_last {value digit : ℕ} (h : hexValue u = some digit) :
    step (.hex role read 1 value, stack) u =
      some (.string role (read ++ [Fin.ofNat 65536 (value * 16 + digit)]), stack) := by
  rw [step, h, Option.map_some, if_pos le_rfl]

theorem hexValue_hexDigit (n : ℕ) : hexValue (hexDigit (n % 16)) = some (n % 16) := by
  have hall : ∀ n < 16, hexValue (hexDigit n) = some n := by decide
  exact hall _ (Nat.mod_lt _ (by decide))

theorem run_unicodeEscape (read : Str) (u : CodeUnit) :
    run (.string role read, stack) (unicodeEscape u) =
    some (.string role (read ++ [u]), stack) := by
  have hvalue : Fin.ofNat 65536 ((((0 * 16 + u.val / 4096 % 16) * 16 + u.val / 256 % 16) * 16 +
      u.val / 16 % 16) * 16 + u.val % 16) = u := by
    have hlt := u.isLt
    refine Fin.ext ((Nat.mod_eq_of_lt ?_).trans ?_) <;> omega
  have hstart : run (.string role read, stack) (unicodeEscape u) = run (.hex role read 4 0, stack)
      [hexDigit (u.val / 4096 % 16), hexDigit (u.val / 256 % 16), hexDigit (u.val / 16 % 16),
        hexDigit (u.val % 16)] := rfl
  rw [hstart, run_cons, step_hex (hexValue_hexDigit _) (by decide), Option.bind_some,
    run_cons, step_hex (hexValue_hexDigit _) (by decide), Option.bind_some,
    run_cons, step_hex (hexValue_hexDigit _) (by decide), Option.bind_some,
    run_cons, step_hex_last (hexValue_hexDigit _), Option.bind_some, hvalue]
  rfl

theorem run_quoteUnit (read : Str) (u : CodeUnit) :
    run (.string role read, stack) (quoteUnit u) = some (.string role (read ++ [u]), stack) := by
  unfold quoteUnit
  split_ifs with h8 h9 h10 h12 h13 h34 h92 hesc
  case pos => rw [h8]; rfl
  case pos => rw [h9]; rfl
  case pos => rw [h10]; rfl
  case pos => rw [h12]; rfl
  case pos => rw [h13]; rfl
  case pos => rw [h34]; rfl
  case pos => rw [h92]; rfl
  case pos => exact run_unicodeEscape read u
  case neg =>
    rw [run_cons, step_string h34 h92 fun h => hesc (Or.inl h)]
    rfl

/-- **A string is read back from its units quoted.** -/
theorem run_quoteUnits (read s : Str) :
    run (.string role read, stack) (quoteUnits s) = some (.string role (read ++ s), stack) := by
  induction s using quoteUnits.induct generalizing read with
  | case1 =>
    rw [List.append_nil]
    rfl
  | case2 u => exact run_quoteUnit read u
  | case3 u v rest hpair ih =>
    have hplain : ∀ {u : CodeUnit}, 0xD800 ≤ u.val → u ≠ 34 ∧ u ≠ 92 ∧ ¬ u.val < 32 := by
      intro u hu
      refine ⟨?_, ?_, by omega⟩ <;> rintro rfl <;> exact absurd hu (by decide)
    obtain ⟨hhigh, hlow⟩ := hpair
    simp only [isHigh, isLow, Bool.and_eq_true, decide_eq_true_eq] at hhigh hlow
    obtain ⟨hu34, hu92, hu32⟩ := hplain hhigh.1
    obtain ⟨hv34, hv92, hv32⟩ := hplain (hlow.1.trans' (by decide))
    rw [quoteUnits, if_pos (by simpa [isHigh, isLow] using ⟨hhigh, hlow⟩),
      run_cons, step_string hu34 hu92 hu32, Option.bind_some,
      run_cons, step_string hv34 hv92 hv32, Option.bind_some, ih, List.append_assoc,
        List.append_assoc]
    rfl
  | case4 u v rest hpair ih =>
    rw [quoteUnits, if_neg hpair, run_append, run_quoteUnit, Option.bind_some, ih,
      List.append_assoc]
    rfl

end Reading

/-! ## What no text read holds -/

/-- A string is being read. -/
def Mode.isString : Mode → Bool
  | .string .. | .escape .. | .hex .. => true
  | _ => false

/-- Nothing follows a value but white space, a comma and an end. -/
theorem stepAfter_eq_none {v : Json} {stack : List Frame} {u : CodeUnit}
    (hwhite : isWhite u = false)
    (h44 : u ≠ 44) (h93 : u ≠ 93) (h125 : u ≠ 125) : stepAfter v stack u = none := by
  match stack with
  | [] => simp only [stepAfter, hwhite, Bool.false_eq_true, if_false]
  | .arr _ :: _ => simp only [stepAfter, hwhite, Bool.false_eq_true, if_false, h44, h93]
  | .obj _ _ :: _ => simp only [stepAfter, hwhite, Bool.false_eq_true, if_false, h44, h125]

theorem stepAfter_isString {v : Json} {stack : List Frame} {u : CodeUnit} {s : State}
    (h : stepAfter v stack u = some s) : s.1.isString = false := by
  match stack with
  | [] | .arr _ :: _ | .obj _ _ :: _ =>
    simp only [stepAfter] at h
    split_ifs at h <;> cases h <;> rfl

theorem start_isString {stack : List Frame} {u : CodeUnit} {s : State} (h34 : u ≠ 34)
    (h : start stack u = some s) : s.1.isString = false := by
  unfold start at h
  rw [if_neg h34] at h
  split_ifs at h <;> cases h <;> rfl

/-- Outside a string, only a quote opens one, and no backslash is read. -/
theorem step_isString {s s' : State} (hs : s.1.isString = false) {u : CodeUnit} (h34 : u ≠ 34)
    (h : step s u = some s') : s'.1.isString = false := by
  obtain ⟨mode, stack⟩ := s
  cases mode with
  | string | escape | hex => cases hs
  | value first =>
    rw [step] at h
    split_ifs at h with hwhite hclose
    case pos => cases h; rfl
    case pos =>
      unfold closeEmpty at h
      split at h <;> cases h
      rfl
    case neg => exact start_isString h34 h
  | key fields first =>
    rw [step, if_neg h34] at h
    split_ifs at h <;> cases h <;> rfl
  | colon fields key =>
    rw [step] at h
    split_ifs at h <;> cases h <;> rfl
  | after v => exact stepAfter_isString h
  | number part read =>
    rw [step] at h
    split at h
    case h_1 => cases h; rfl
    case h_2 =>
      split_ifs at h
      exact stepAfter_isString h
  | word v read =>
    rw [step] at h
    split_ifs at h <;> cases h <;> rfl

/-- No backslash is read outside a string. -/
theorem step_backslash {s : State} (hs : s.1.isString = false) : step s 92 = none := by
  obtain ⟨mode, stack⟩ := s
  cases mode with
  | string | escape | hex => cases hs
  | value first => cases first <;> rfl
  | key fields first => rfl
  | colon fields key => rfl
  | after v => exact stepAfter_eq_none rfl (by decide) (by decide) (by decide)
  | number part read =>
    have hafter : stepAfter (.num read) stack 92 = none :=
      stepAfter_eq_none rfl (by decide) (by decide) (by decide)
    cases part <;> first | rfl | exact hafter
  | word v read =>
    rw [step, if_neg]
    intro h
    have hmem := List.mem_of_getElem? h
    rcases v with _ | _ | _ <;> exact absurd hmem (by decide)

/-- A quote opens a string, if anything. -/
theorem step_quote {s : State} (hs : s.1.isString = false) :
    step s 34 = none ∨ ∃ role stack, step s 34 = some (.string role [], stack) := by
  obtain ⟨mode, stack⟩ := s
  cases mode with
  | string | escape | hex => cases hs
  | value first => exact Or.inr ⟨.value, stack, by cases first <;> rfl⟩
  | key fields first => exact Or.inr ⟨.key fields, stack, rfl⟩
  | colon fields key => exact Or.inl rfl
  | after v => exact Or.inl (stepAfter_eq_none rfl (by decide) (by decide) (by decide))
  | number part read =>
    have hafter : stepAfter (.num read) stack 34 = none :=
      stepAfter_eq_none rfl (by decide) (by decide) (by decide)
    exact Or.inl (by cases part <;> first | rfl | exact hafter)
  | word v read =>
    refine Or.inl ?_
    rw [step, if_neg]
    intro h
    have hmem := List.mem_of_getElem? h
    rcases v with _ | _ | _ <;> exact absurd hmem (by decide)

/-! ### Text without a bare quote -/

/-- Every quote follows a backslash. -/
def Bare : CodeUnit → Str → Prop
  | _, [] => True
  | before, u :: text => (u = 34 → before = 92) ∧ Bare u text

theorem Bare.right {before : CodeUnit} {a : Str} {u : CodeUnit} {b : Str}
    (h : Bare before (a ++ u :: b)) : Bare u b := by
  induction a generalizing before with
  | nil => exact h.2
  | cons v a ih => exact ih h.2

/-- **What comes before the first bare quote, read outside a string, opens none.** -/
theorem run_bare {s : State} (hs : s.1.isString = false) {before : CodeUnit} (hbefore : before ≠ 92)
    {text : Str} (htext : Bare before text) (rest : Str) :
    run s (text ++ 34 :: rest) = none ∨
      ∃ role stack, run s (text ++ 34 :: rest) = run (.string role [], stack) rest := by
  induction text generalizing s before with
  | nil =>
    rw [List.nil_append, run_cons]
    obtain hnone | ⟨role, stack, hopen⟩ := step_quote hs
    · exact Or.inl (by rw [hnone]; rfl)
    · exact Or.inr ⟨role, stack, by rw [hopen]; rfl⟩
  | cons u text ih =>
    have h34 : u ≠ 34 := fun h => hbefore (htext.1 h)
    rw [List.cons_append, run_cons]
    cases hstep : step s u with
    | none => exact Or.inl rfl
    | some s' =>
      have h92 : u ≠ 92 := by
        rintro rfl
        rw [step_backslash hs] at hstep
        cases hstep
      exact ih (step_isString hs h34 hstep) h92 htext.2

theorem bare_append {before : CodeUnit} {a b : Str} (ha : Bare before a)
    (hb : ∀ before, Bare before b) : Bare before (a ++ b) := by
  induction a generalizing before with
  | nil => exact hb before
  | cons u a ih => exact ⟨ha.1, ih ha.2⟩

/-- Text with no quote in it. -/
theorem bare_of_notMem {before : CodeUnit} {text : Str} (h : 34 ∉ text) : Bare before text := by
  induction text generalizing before with
  | nil => trivial
  | cons u text ih =>
    exact ⟨fun hu => absurd (hu ▸ List.mem_cons_self) h, ih fun hm => h (List.mem_cons_of_mem _ hm)⟩

theorem hexDigit_ne_quote (n : ℕ) : hexDigit (n % 16) ≠ 34 := by
  have hall : ∀ n < 16, hexDigit n ≠ 34 := by decide
  exact hall _ (Nat.mod_lt _ (by decide))

theorem bare_quoteUnit (before u : CodeUnit) : Bare before (quoteUnit u) := by
  have hescape : ∀ v, Bare before [92, v] := fun v =>
    ⟨fun h => absurd h (by decide), fun _ => rfl, trivial⟩
  have hunicode : Bare before (unicodeEscape u) := by
    refine bare_of_notMem ?_
    simp only [unicodeEscape, List.mem_cons, List.not_mem_nil, or_false, not_or]
    exact ⟨by decide, by decide, (hexDigit_ne_quote _).symm, (hexDigit_ne_quote _).symm,
      (hexDigit_ne_quote _).symm, (hexDigit_ne_quote _).symm⟩
  unfold quoteUnit
  split_ifs with h8 h9 h10 h12 h13 h34
  any_goals exact hescape _
  · exact hunicode
  · exact ⟨fun h => absurd h h34, trivial⟩

/-- **A quoted string holds no bare quote.** -/
theorem bare_quoteUnits (before : CodeUnit) (s : Str) : Bare before (quoteUnits s) := by
  induction s using quoteUnits.induct generalizing before with
  | case1 => trivial
  | case2 u => exact bare_quoteUnit before u
  | case3 u v rest hpair ih =>
    obtain ⟨hhigh, hlow⟩ := hpair
    rw [quoteUnits, if_pos ⟨hhigh, hlow⟩]
    refine ⟨?_, ?_, ih v⟩
    · rintro rfl
      exact absurd hhigh (by decide)
    · rintro rfl
      exact absurd hlow (by decide)
  | case4 u v rest hpair ih =>
    rw [quoteUnits, if_neg hpair]
    exact bare_append (bare_quoteUnit before u) ih

/-! ### A dot, a brace, a quote, a letter -/

/-- A dot is of a string, or of a number. -/
theorem step_dot {s s' : State} (h : step s 46 = some s') :
    (∃ role read stack, s' = (.string role read, stack)) ∨
      ∃ read stack, s' = (.number .dot read, stack) := by
  obtain ⟨mode, stack⟩ := s
  have hafter : ∀ v, stepAfter v stack 46 = none := fun v =>
    stepAfter_eq_none rfl (by decide) (by decide) (by decide)
  cases mode with
  | string role read =>
    cases h
    exact Or.inl ⟨role, _, stack, rfl⟩
  | value first => cases first <;> cases h
  | key | colon | escape | hex => cases h
  | after v =>
    rw [step, hafter] at h
    cases h
  | number part read =>
    cases part with
    | zero | int =>
      cases h
      exact Or.inr ⟨_, stack, rfl⟩
    | minus | dot | exp | sign => cases h
    | frac | power =>
      change stepAfter _ stack 46 = _ at h
      rw [hafter] at h
      cases h
  | word v read =>
    rw [step, if_neg] at h
    · cases h
    · intro h
      have hmem := List.mem_of_getElem? h
      rcases v with _ | _ | _ <;> exact absurd hmem (by decide)

/-- A quote ends a string, and no letter follows it. -/
theorem run_quote_letter (role : Role) (read : Str) (stack : List Frame) {u : CodeUnit}
    (hwhite : isWhite u = false) (h44 : u ≠ 44) (h58 : u ≠ 58) (h93 : u ≠ 93) (h125 : u ≠ 125)
    (rest : Str) : run (.string role read, stack) (34 :: u :: rest) = none := by
  have hclose : run (.string role read, stack) (34 :: u :: rest) =
      run (role.close read, stack) (u :: rest) := rfl
  rw [hclose, run_cons]
  cases role with
  | value =>
    change (stepAfter _ stack u).bind _ = none
    rw [stepAfter_eq_none hwhite h44 h93 h125]
    rfl
  | key fields =>
    change (step (.colon fields _, stack) u).bind _ = none
    rw [step, hwhite, if_neg Bool.false_ne_true, if_neg h58]
    rfl

/-- **No text goes on past a dot, a brace, a quote and a letter**: the dot and the brace are of a
string. -/
theorem run_dot_brace (s : State) {u : CodeUnit} (hwhite : isWhite u = false) (h44 : u ≠ 44)
    (h58 : u ≠ 58) (h93 : u ≠ 93) (h125 : u ≠ 125) (rest : Str) :
    run s (46 :: 123 :: 34 :: u :: rest) = none := by
  rw [run_cons]
  cases hdot : step s 46 with
  | none => rfl
  | some s' =>
    obtain ⟨role, read, stack, rfl⟩ | ⟨read, stack, rfl⟩ := step_dot hdot
    · exact run_quote_letter role (read ++ [123]) stack hwhite h44 h58 h93 h125 rest
    · rfl

/-! ### No lone surrogate -/

theorem isWellFormed_quoteUnit (u : CodeUnit) : isWellFormed (quoteUnit u) := by
  have hhex : ∀ n, (hexDigit (n % 16)).val < 0xD800 := fun n => by
    have hall : ∀ n < 16, (hexDigit n).val < 0xD800 := by decide
    exact hall _ (Nat.mod_lt _ (by decide))
  have hunicode : isWellFormed (unicodeEscape u) := by
    refine isWellFormed_of_forall ?_
    simp only [unicodeEscape, List.forall_mem_cons, List.not_mem_nil, false_implies, implies_true,
      and_true]
    exact ⟨by decide, by decide, hhex _, hhex _, hhex _, hhex _⟩
  unfold quoteUnit
  split_ifs with h8 h9 h10 h12 h13 h34 h92 hesc
  any_goals rfl
  · exact hunicode
  · simp only [not_or, Bool.not_eq_true] at hesc
    simp only [isWellFormed, hesc.2.1, hesc.2.2, Bool.not_false, Bool.and_self]

/-- **A quoted string is well-formed**, whatever it holds. -/
theorem isWellFormed_quoteUnits (s : Str) : isWellFormed (quoteUnits s) := by
  induction s using quoteUnits.induct with
  | case1 => rfl
  | case2 u => exact isWellFormed_quoteUnit u
  | case3 u v rest hpair ih =>
    rw [quoteUnits, if_pos hpair, isWellFormed, if_pos hpair.1, hpair.2, ih]
    rfl
  | case4 u v rest hpair ih =>
    rw [quoteUnits, if_neg hpair]
    exact isWellFormed_append (isWellFormed_quoteUnit u) ih

end Json

end Js
