import Janus.Machinery.Outcome
import Janus.Webhooks.Signature
import Mathlib.Tactic.Linarith

/-!
# Webhooks/Verified — what was posted verifies, and nothing else does

A signed text is split one way only: what follows any other dot of it is no JSON text
(`signedText_inj`).  What is verified is then the event that was signed (`signed_webhooks`).
-/

namespace Janus.Webhooks

open Js Json

/-! ## A body, its parts -/

section Body

variable {event : UserEvent}

theorem writeObject_two (a x b y : Str) : writeObject [(a, x), (b, y)] =
    123 :: (quote a ++ 58 :: (x ++ 44 :: (quote b ++ 58 :: (y ++ [125])))) := by
  simp [writeObject, List.intercalate]

theorem writeObject_three (a x b y c z : Str) : writeObject [(a, x), (b, y), (c, z)] =
    123 :: (quote a ++ 58 :: (x ++ 44 :: (quote b ++ 58 :: (y ++ 44 :: (quote c ++ 58 ::
      (z ++ [125])))))) := by
  simp [writeObject, List.intercalate]

/-- What stands between the quoted strings of a body. -/
theorem bodyOf_eq (event : UserEvent) : bodyOf event =
    js "\x7b\"type\":\"" ++ (quoteUnits event.type ++ 34 :: (js ",\"timestamp\":\"" ++
      (quoteUnits (Date.toISOString event.occurredAt) ++ 34 :: (js ",\"data\":\x7b\"userId\":\"" ++
        (quoteUnits event.userId ++ 34 :: (js ",\"userType\":\"" ++
          (quoteUnits event.userType ++ 34 :: js "\x7d\x7d"))))))) := by
  have htype : js "\x7b\"type\":\"" = 123 :: (quote (js "type") ++ [58, 34]) := by decide
  have htimestamp : js ",\"timestamp\":\"" = 44 :: (quote (js "timestamp") ++ [58, 34]) := by decide
  have hdata : js ",\"data\":\x7b\"userId\":\"" =
      44 :: (quote (js "data") ++ 58 :: 123 :: (quote (js "userId") ++ [58, 34])) := by decide
  have huserType : js ",\"userType\":\"" = 44 :: (quote (js "userType") ++ [58, 34]) := by decide
  have hend : js "\x7d\x7d" = [125, 125] := by decide
  have hquote : ∀ s, quote s = 34 :: (quoteUnits s ++ [34]) := fun _ => rfl
  rw [bodyOf, writeObject_two, writeObject_three, htype, htimestamp, hdata, huserType, hend,
    hquote event.type, hquote (Date.toISOString _), hquote event.userId, hquote event.userType]
  simp only [List.append_assoc, List.cons_append, List.nil_append]

/-- **A body is read back.** -/
theorem parse_bodyOf (event : UserEvent) : Json.parse (bodyOf event) =
    some (.obj [(js "type", .str event.type),
      (js "timestamp", .str (Date.toISOString event.occurredAt)),
      (js "data", .obj [(js "userId", .str event.userId), (js "userType", .str event.userType)])]) := by
  have hstart : run (.value false, []) (js "\x7b\"type\":\"") =
      some (.string .value [], [.obj [] (js "type")]) := by rfl
  rw [bodyOf_eq, Json.parse, run_append, hstart, Option.bind_some, run_append, run_quoteUnits,
    Option.bind_some, List.nil_append]
  have htimestamp : ∀ type, run (.string .value type, [.obj [] (js "type")])
      (34 :: js ",\"timestamp\":\"") =
      some (.string .value [], [.obj [(js "type", .str type)] (js "timestamp")]) := fun _ => rfl
  rw [← List.cons_append, run_append, htimestamp, Option.bind_some, run_append, run_quoteUnits,
    Option.bind_some, List.nil_append]
  have hdata : ∀ type at_, run (.string .value at_,
    [.obj [(js "type", .str type)] (js "timestamp")])
      (34 :: js ",\"data\":\x7b\"userId\":\"") =
      some (.string .value [], [.obj [] (js "userId"),
        .obj [(js "type", .str type), (js "timestamp", .str at_)] (js "data")]) := fun _ _ => rfl
  rw [← List.cons_append, run_append, hdata, Option.bind_some, run_append, run_quoteUnits,
    Option.bind_some, List.nil_append]
  have huserType : ∀ userId stack, run (.string .value userId, .obj [] (js "userId") :: stack)
      (34 :: js ",\"userType\":\"") =
      some (.string .value [], .obj [(js "userId", .str userId)] (js "userType") :: stack) :=
    fun _ _ => rfl
  rw [← List.cons_append, run_append, huserType, Option.bind_some, run_append, run_quoteUnits,
    Option.bind_some, List.nil_append]
  rfl

/-- **An event is read back from its body**, under the id of its header. -/
theorem eventOf_bodyOf (rt : Runtime) (htype : isUserEventType event.type)
    (hdate : Date.IsMoment event.occurredAt) : eventOf rt event.id (bodyOf event) = some event := by
  rw [eventOf, parse_bodyOf]
  have hread := Date.parse_toISOString hdate rt.otherDate
  have hfields : ∀ {a b c : Json},
      (Json.obj [(js "type", a), (js "timestamp", b), (js "data", c)]).field (js "type") = some a ∧
      (Json.obj [(js "type", a), (js "timestamp", b), (js "data", c)]).field (js "timestamp") =
        some b ∧
      (Json.obj [(js "type", a), (js "timestamp", b), (js "data", c)]).field (js "data") = some c :=
    ⟨rfl, rfl, rfl⟩
  have hdata : ∀ {a b : Json},
      (Json.obj [(js "userId", a), (js "userType", b)]).field (js "userId") = some a ∧
      (Json.obj [(js "userId", a), (js "userType", b)]).field (js "userType") = some b := ⟨rfl, rfl⟩
  simp only [Option.bind_eq_bind, Option.bind_some, hfields, hdata, htype, Bool.not_true,
    Bool.false_eq_true, if_false, hread, Option.pure_def]

/-- No body holds half of a surrogate pair. -/
theorem isWellFormed_bodyOf (event : UserEvent) : isWellFormed (bodyOf event) := by
  have hquoted : ∀ {rest : Str} (s : Str), isWellFormed (34 :: rest) →
      isWellFormed (quoteUnits s ++ 34 :: rest) :=
    fun s => isWellFormed_append (isWellFormed_quoteUnits s)
  rw [bodyOf_eq]
  refine isWellFormed_append (by decide) (hquoted _ ?_)
  rw [← List.cons_append]
  refine isWellFormed_append (by decide) (hquoted _ ?_)
  rw [← List.cons_append]
  refine isWellFormed_append (by decide) (hquoted _ ?_)
  rw [← List.cons_append]
  exact isWellFormed_append (by decide) (hquoted _ (by decide))

end Body

/-! ## A dot of a body -/

/-- A dot past a text that has none is of what is quoted next, or after it. -/
theorem split_dot {pre quoted tail x y : Str} (hpre : (46 : CodeUnit) ∉ pre)
    (h : pre ++ (quoted ++ 34 :: tail) = x ++ 46 :: y) :
    (∃ a b, quoted = a ++ 46 :: b ∧ y = b ++ 34 :: tail) ∨ ∃ x', tail = x' ++ 46 :: y := by
  have hquoted : ∀ x, quoted ++ 34 :: tail = x ++ 46 :: y →
      (∃ a b, quoted = a ++ 46 :: b ∧ y = b ++ 34 :: tail) ∨ ∃ x', tail = x' ++ 46 :: y := by
    intro x h
    obtain ⟨c, rfl, htail⟩ | ⟨c, rfl, hy⟩ := List.append_eq_append_iff.mp h
    · cases c with
      | nil => exact absurd (List.head_eq_of_cons_eq htail) (by decide)
      | cons u c => exact Or.inr ⟨c, List.tail_eq_of_cons_eq htail⟩
    · cases c with
      | nil => exact absurd (List.head_eq_of_cons_eq hy) (by decide)
      | cons u c =>
        obtain ⟨rfl, rfl⟩ := List.cons.inj hy
        exact Or.inl ⟨x, c, rfl, rfl⟩
  obtain ⟨c, rfl, hrest⟩ | ⟨c, rfl, hy⟩ := List.append_eq_append_iff.mp h
  · exact hquoted c hrest
  · cases c with
    | nil => exact hquoted [] hy.symm
    | cons u c =>
      obtain rfl := List.head_eq_of_cons_eq hy
      exact absurd (List.mem_append_right _ List.mem_cons_self) hpre

/-- **What follows a dot within a body is no JSON text**: the quote that ends the dot's string opens
one, and that one ends before a letter, or not at all. -/
theorem parse_after_dot {event : UserEvent} {x y : Str} (h : bodyOf event = x ++ 46 :: y) :
    Json.parse y = none := by
  have hletter : ∀ {s a b tail : Str} {u : CodeUnit}, quoteUnits s = a ++ 46 :: b →
      isWhite u = false → u ≠ 44 → u ≠ 58 → u ≠ 93 → u ≠ 125 →
      Json.parse (b ++ 34 :: 44 :: 34 :: u :: tail) = none := by
    intro s a b tail u hs hwhite h44 h58 h93 h125
    have hbare : Bare 46 b := (hs ▸ bare_quoteUnits 0 s).right
    rw [Json.parse]
    obtain hnone | ⟨role, stack, hopen⟩ := run_bare (s := (.value false, [])) rfl (by decide) hbare
      (44 :: 34 :: u :: tail)
    · rw [hnone]
      rfl
    · have hcomma : run (.string role [], stack) (44 :: 34 :: u :: tail) =
          run (.string role [44], stack) (34 :: u :: tail) := rfl
      rw [hopen, hcomma, run_quote_letter role [44] stack hwhite h44 h58 h93 h125]
      rfl
  have hend : ∀ {s a b : Str}, quoteUnits s = a ++ 46 :: b →
      Json.parse (b ++ 34 :: js "\x7d\x7d") = none := by
    intro s a b hs
    have hbare : Bare 46 b := (hs ▸ bare_quoteUnits 0 s).right
    rw [Json.parse]
    obtain hnone | ⟨role, stack, hopen⟩ := run_bare (s := (.value false, [])) rfl (by decide) hbare
      (js "\x7d\x7d")
    · rw [hnone]
      rfl
    · rw [hopen]
      rfl
  rw [bodyOf_eq] at h
  obtain ⟨a, b, hs, rfl⟩ | ⟨x, h⟩ := split_dot (by decide) h
  · exact hletter hs rfl (by decide) (by decide) (by decide) (by decide)
  obtain ⟨a, b, hs, rfl⟩ | ⟨x, h⟩ := split_dot (by decide) h
  · exact hletter hs rfl (by decide) (by decide) (by decide) (by decide)
  obtain ⟨a, b, hs, rfl⟩ | ⟨x, h⟩ := split_dot (by decide) h
  · exact hletter hs rfl (by decide) (by decide) (by decide) (by decide)
  obtain ⟨a, b, hs, rfl⟩ | ⟨x, h⟩ := split_dot (by decide) h
  · exact hend hs
  · exact absurd (h ▸ List.mem_append_right x List.mem_cons_self) (by decide)

/-! ## A signed text -/

theorem decimal_isDecimal {n : ℕ} {u : CodeUnit} (h : u ∈ decimal n) : isDecimal u := by
  obtain ⟨c, hc, rfl⟩ := List.mem_map.mp h
  have hdigit := Nat.isDigit_of_mem_toDigits (b := 10) (by decide) (by decide) hc
  simp only [Char.isDigit, Bool.and_eq_true, decide_eq_true_eq, ge_iff_le,
    UInt32.le_iff_toNat_le] at hdigit
  have hval : (Fin.ofNat 65536 c.toNat).val = c.toNat :=
    Nat.mod_eq_of_lt (Nat.lt_of_le_of_lt hdigit.2 (by decide))
  simp only [isDecimal, hval, Bool.and_eq_true, decide_eq_true_eq]
  exact hdigit

theorem dot_notMem_numberText (n : ℤ) : (46 : CodeUnit) ∉ numberText n := by
  have hdecimal : ∀ n, (46 : CodeUnit) ∉ decimal n := fun n h =>
    absurd (decimal_isDecimal h) (by decide)
  rw [numberText]
  split_ifs
  · exact fun h => (List.mem_cons.mp h).elim (by decide) (hdecimal _)
  · exact hdecimal _

theorem numberText_injective : Function.Injective numberText := by
  have hminus : ∀ m n : ℕ, 45 :: decimal m ≠ decimal n := fun m n h =>
    absurd (decimal_isDecimal (h ▸ List.mem_cons_self)) (by decide)
  intro m n h
  rw [numberText, numberText] at h
  split_ifs at h with hm hn hn
  · have := decimal_injective (List.tail_eq_of_cons_eq h)
    omega
  · exact absurd h (hminus _ _)
  · exact absurd h.symm (hminus _ _)
  · have := decimal_injective h
    omega

theorem isWellFormed_numberText (n : ℤ) : isWellFormed (numberText n) := by
  have hdecimal : ∀ n, ∀ u ∈ decimal n, u.val < 0xD800 := fun n u h => by
    have hdigit := decimal_isDecimal h
    simp only [isDecimal, Bool.and_eq_true, decide_eq_true_eq] at hdigit
    omega
  rw [numberText]
  split_ifs
  · exact isWellFormed_of_forall (List.forall_mem_cons.mpr ⟨by decide, hdecimal _⟩)
  · exact isWellFormed_of_forall (hdecimal _)

theorem isWellFormed_signedText {id body : Str} (timestamp : ℤ) (hid : isWellFormed id)
    (hbody : isWellFormed body) : isWellFormed (signedText id timestamp body) := by
  have hdot : ∀ {rest : Str}, isWellFormed rest → isWellFormed (46 :: rest) :=
    isWellFormed_append (a := [46]) (by decide)
  exact isWellFormed_append hid
    (hdot (isWellFormed_append (isWellFormed_numberText timestamp) (hdot hbody)))

/-- **A signed text is split one way**: into an event's body, and what is before it. -/
theorem signedText_inj {event : UserEvent} {id id' body : Str} {timestamp timestamp' : ℤ}
    (h : signedText id timestamp (bodyOf event) = signedText id' timestamp' body)
    (hparse : Json.parse body ≠ none) : id = id' ∧ timestamp = timestamp' ∧
      body = bodyOf event := by
  have hjoin : ∀ id timestamp body, signedText id timestamp body =
      (id ++ 46 :: numberText timestamp) ++ 46 :: body := fun _ _ _ => by
    rw [signedText, List.append_assoc, List.cons_append]
  have hsame : body = bodyOf event := by
    rw [hjoin, hjoin] at h
    obtain ⟨c, -, hrest⟩ | ⟨c, -, hrest⟩ := List.append_eq_append_iff.mp h
    · cases c with
      | nil => exact (List.tail_eq_of_cons_eq hrest).symm
      | cons u c => exact absurd (parse_after_dot (List.tail_eq_of_cons_eq hrest)) hparse
    · cases c with
      | nil => exact List.tail_eq_of_cons_eq hrest
      | cons u c =>
        -- the body would go on past a dot and the brace of the event's own
        refine absurd ?_ hparse
        have hbody : body = c ++ 46 :: bodyOf event := List.tail_eq_of_cons_eq hrest
        obtain ⟨rest, hbrace⟩ : ∃ rest, bodyOf event = 123 :: 34 :: 116 :: rest :=
          ⟨_, bodyOf_eq event⟩
        rw [hbody, Json.parse, run_append, hbrace]
        cases run (.value false, []) c with
        | none => rfl
        | some s =>
          rw [Option.bind_some, run_dot_brace s
            (by decide) (by decide) (by decide) (by decide) (by decide)]
          rfl
  subst hsame
  rw [hjoin, hjoin] at h
  have hbefore := List.append_cancel_right h
  obtain ⟨hid, hstamp⟩ := append_cons_inj' (dot_notMem_numberText _)
    (dot_notMem_numberText _) hbefore
  exact ⟨hid, numberText_injective hstamp, rfl⟩

/-! ## What was posted -/

/-- An event the listener took, signed with one key of an endpoint's, at a second of the sender's
clock. -/
structure Posting where
  key : List UInt8
  event : UserEvent
  timestamp : ℤ
  given : Given
  where_ : Str
  accepted : deliverable given where_ = .ok event

/-- The MAC a posting sends. -/
def Posting.mac (rt : Runtime) (p : Posting) : List UInt8 :=
  rt.hmacSha256 p.key (utf8 (signedText p.event.id p.timestamp (bodyOf p.event)))

/-- No signature by these keys in the header but one a posting sent: nobody else knows them, and
nothing else is signed with them. -/
def Unforged (rt : Runtime) (posted : List Posting) (keys : List (List UInt8)) (header : Str) :
    Prop :=
  ∀ key ∈ keys, ∀ message, ∀ given ∈ header.splitOn 32,
    utf8 given = utf8 (signature rt (rt.hmacSha256 key message)) →
      ∃ p ∈ posted, p.mac rt = rt.hmacSha256 key message

/-- An event the listener takes is one of ours, at a valid date. -/
theorem of_deliverable {given : Given} {where_ : Str} {event : UserEvent}
    (h : deliverable given where_ = .ok event) :
    isUserEventType event.type ∧ Date.IsMoment event.occurredAt := by
  unfold deliverable at h
  split at h
  case h_2 => cases h
  case h_1 type id userId userType htype _ _ _ =>
    split at h
    case h_2 => cases h
    case h_1 at_ _ =>
      cases h
      exact ⟨(Option.filter_eq_some_iff.mp htype).2, at_.2⟩

/-- A header that is verified holds a MAC of the message. -/
theorem of_signedBy {rt : Runtime} {keys : List (List UInt8)} {header id body : Str} {timestamp : ℤ}
    (h : signedBy rt keys header id timestamp body) :
    ∃ key ∈ keys, ∃ given ∈ header.splitOn 32,
      utf8 given = utf8 (signature rt (rt.hmacSha256 key (utf8 (signedText id timestamp body)))) := by
  obtain ⟨key, hkey, hany⟩ := List.any_eq_true.mp h
  obtain ⟨bytes, hbytes, hequal⟩ := List.any_eq_true.mp hany
  obtain ⟨given, hgiven, rfl⟩ := List.mem_map.mp hbytes
  exact ⟨key, hkey, given, List.mem_of_mem_filter hgiven, (of_decide_eq_true hequal).2⟩

theorem required_ok {α : Type} {passed : Option α} {message : Str} {a : α} :
    required passed message = .ok a ↔ passed = some a := by
  cases passed with
  | none => exact ⟨nofun, nofun⟩
  | some b =>
    exact ⟨fun h => congrArg some (Except.ok.inj h), fun h => congrArg Except.ok (Option.some.inj h)⟩

theorem of_verified {rt : Runtime} {keys : List (List UInt8)} {tolerance : ℚ} {now : ℤ}
    {headers : HeadersLike} {body : Str} {event : UserEvent}
    (h : verified rt keys tolerance now headers body = some event) :
    ∃ id header_ timestamp, header rt (js "webhook-id") headers = some id ∧
      header rt (js "webhook-signature") headers = some header_ ∧
      signedBy rt keys header_ id timestamp body ∧ eventOf rt id body = some event := by
  obtain ⟨id, hid, h⟩ := Option.bind_eq_some_iff.mp h
  obtain ⟨stamp, -, h⟩ := Option.bind_eq_some_iff.mp h
  obtain ⟨header_, hheader, h⟩ := Option.bind_eq_some_iff.mp h
  obtain ⟨timestamp, -, h⟩ := Option.bind_eq_some_iff.mp h
  split_ifs at h with hlate hsigned
  exact ⟨id, header_, timestamp, hid, hheader, hsigned, h⟩

/-- What verified holds an event. -/
theorem parse_of_eventOf {rt : Runtime} {id body : Str} {event : UserEvent}
    (h : eventOf rt id body = some event) : Json.parse body ≠ none := fun hnone => by
  rw [eventOf, hnone] at h
  cases h

/-- **What verifies was signed**: with one of the keys, that event. -/
theorem of_unforged {rt : Runtime} {keys : List (List UInt8)} {tolerance : ℚ} {now : ℤ}
    {headers : HeadersLike} {body : Str} {event : UserEvent} {posted : List Posting}
    (h : verified rt keys tolerance now headers body = some event)
    (hunforged : ∀ header_, header rt (js "webhook-signature") headers = some header_ →
      Unforged rt posted keys header_)
    (hid : ∀ id, header rt (js "webhook-id") headers = some id → isWellFormed id)
    (hbody : isWellFormed body) (hposted : ∀ p ∈ posted, isWellFormed p.event.id) :
    ∃ p ∈ posted, p.key ∈ keys ∧ p.event = event := by
  obtain ⟨id, header_, timestamp, hgiven, hheader, hsigned, hevent⟩ := of_verified h
  obtain ⟨key, hkey, given, hmem, hbytes⟩ := of_signedBy hsigned
  obtain ⟨p, hp, hmac⟩ := hunforged header_ hheader key hkey _ given hmem hbytes
  obtain ⟨rfl, htext⟩ := rt.hmac_injective hmac
  have hsame := utf8_injective
    (isWellFormed_signedText _ (hposted p hp) (isWellFormed_bodyOf p.event))
    (isWellFormed_signedText _ (hid id hgiven) hbody) htext
  obtain ⟨rfl, -, rfl⟩ := signedText_inj hsame (parse_of_eventOf hevent)
  obtain ⟨htype, hdate⟩ := of_deliverable p.accepted
  exact ⟨p, hp, hkey, Option.some.inj ((eventOf_bodyOf rt htype hdate).symm.trans hevent)⟩

/-! ## What was posted verifies -/

/-- A number of at most twelve digits is read back. -/
theorem stampOf_numberText {timestamp : ℤ} (h0 : 0 ≤ timestamp) (h12 : timestamp < 10 ^ 12) :
    stampOf (numberText timestamp) = some timestamp.toNat := by
  obtain ⟨n, rfl⟩ := Int.eq_ofNat_of_zero_le h0
  have hlt : n < 10 ^ 12 := by exact_mod_cast h12
  have hlength : (decimal n).length = (Nat.toDigits 10 n).length := List.length_map _
  have hpos : 1 ≤ (decimal n).length := hlength ▸ Nat.length_toDigits_pos
  have htwelve : (decimal n).length ≤ 12 :=
    hlength ▸ (Nat.length_toDigits_le_iff (by decide) (by decide)).mpr hlt
  have hall : (decimal n).all isDecimal := List.all_eq_true.mpr fun u hu => decimal_isDecimal hu
  have hread : (decimal n).foldl (fun n u => 10 * n + (u.val - 48)) 0 = n := by
    calc (decimal n).foldl (fun n u => 10 * n + (u.val - 48)) 0
        = Nat.ofDigitChars 10 ((decimal n).map fun u => Char.ofNat u.val) 0 := by
          rw [Nat.ofDigitChars_eq_foldl, List.foldl_map]
          refine List.foldl_ext _ _ _ fun m u hu => ?_
          have hdigit := decimal_isDecimal hu
          simp only [isDecimal, Bool.and_eq_true, decide_eq_true_eq] at hdigit
          rw [toNat_ofNat (Or.inl (by omega))]
          rfl
      _ = n := by rw [map_decimal, Nat.ofDigitChars_ten_toDigits]
  rw [numberText, if_neg (by omega), Int.toNat_natCast, stampOf,
    if_pos ⟨hpos, htwelve, hall⟩, hread]

/-- A key does not depend on who asks for it. -/
theorem keyOf_where {rt : Runtime} {secret : Value} {where_ where' : Str} {key : List UInt8}
    (h : keyOf rt secret where_ = .ok key) : keyOf rt secret where' = .ok key := by
  unfold keyOf at h ⊢
  split at h
  case h_1 => cases h
  case h_2 text _ =>
    dsimp only at h ⊢
    split_ifs at h ⊢
    exact h

theorem mem_of_mapM {rt : Runtime} {secrets : List Value} {where_ : Str} {keys : List (List UInt8)}
    (h : secrets.mapM (fun secret => keyOf rt secret where_) = .ok keys) {secret : Value}
    (hsecret : secret ∈ secrets) : ∃ key ∈ keys, keyOf rt secret where_ = .ok key := by
  induction secrets generalizing keys with
  | nil => cases hsecret
  | cons first secrets ih =>
    rw [List.mapM_cons] at h
    obtain ⟨key, hkey, h⟩ := Except.bind_ok.mp h
    obtain ⟨rest, hrest, h⟩ := Except.bind_ok.mp h
    obtain rfl := Except.pure_ok.mp h
    obtain rfl | hmem := List.mem_cons.mp hsecret
    · exact ⟨key, List.mem_cons_self, hkey⟩
    · obtain ⟨key', hkey', hof⟩ := ih hrest hmem
      exact ⟨key', List.mem_cons_of_mem _ hkey', hof⟩

/-- The signatures of a header, by each of its keys. -/
theorem signedBy_postHeaders (rt : Runtime) {keys keys' : List (List UInt8)} {key : List UInt8}
    (hkey : key ∈ keys) (hkey' : key ∈ keys') (id body : Str) (timestamp : ℤ) :
    signedBy rt keys'
      ([32].intercalate (keys.map fun key => sign rt key id timestamp body)) id timestamp
      body := by
  have hspace : ∀ one ∈ keys.map fun key => sign rt key id timestamp body,
    (32 : CodeUnit) ∉ one := by
    intro one hone
    obtain ⟨key, -, rfl⟩ := List.mem_map.mp hone
    exact fun h => (List.mem_append.mp h).elim (by decide) (rt.space_notMem_toBase64 _)
  have hne : (keys.map fun key => sign rt key id timestamp body) ≠ [] :=
    List.ne_nil_of_mem (List.mem_map_of_mem hkey)
  have hprefix : (js "v1,").isPrefixOf (sign rt key id timestamp body) :=
    List.isPrefixOf_iff_prefix.mpr (List.prefix_append ..)
  rw [signedBy, List.splitOn_intercalate 32 hspace hne]
  refine List.any_eq_true.mpr ⟨key, hkey', List.any_eq_true.mpr ⟨_, List.mem_map_of_mem
    (List.mem_filter.mpr ⟨List.mem_map_of_mem hkey, hprefix⟩), ?_⟩⟩
  exact decide_eq_true ⟨rfl, rfl⟩

theorem header_postHeaders (rt : Runtime) (keys : List (List UInt8))
    (event : UserEvent) (body : Str)
    (now : ℤ) :
    header rt (js "webhook-id") (postHeaders rt keys event body now) = some event.id ∧
    header rt (js "webhook-timestamp") (postHeaders rt keys event body now) =
      some (numberText (now / 1000)) ∧
    header rt (js "webhook-signature") (postHeaders rt keys event body now) =
      some ([32].intercalate (keys.map fun key => sign rt key event.id (now / 1000) body)) := by
  have hcontent : rt.toLowerCase (js "content-type") = js "content-type" :=
    rt.toLowerCase_lower (by decide)
  have hid : rt.toLowerCase (js "webhook-id") = js "webhook-id" := rt.toLowerCase_lower (by decide)
  have hstamp : rt.toLowerCase (js "webhook-timestamp") = js "webhook-timestamp" :=
    rt.toLowerCase_lower (by decide)
  have hsignature : rt.toLowerCase (js "webhook-signature") = js "webhook-signature" :=
    rt.toLowerCase_lower (by decide)
  refine ⟨?_, ?_, ?_⟩ <;>
    simp only [header, postHeaders, List.find?, hcontent, hid, hstamp, hsignature] <;> rfl

/-- **What was posted verifies**, as the event it is of. -/
theorem verified_postHeaders (rt : Runtime) {keys keys' : List (List UInt8)} {key : List UInt8}
    (hkey : key ∈ keys) (hkey' : key ∈ keys') {event : UserEvent}
    (htype : isUserEventType event.type)
    (hdate : Date.IsMoment event.occurredAt) {sentAt now : ℤ} {tolerance : ℚ}
      (h0 : 0 ≤ sentAt / 1000)
    (h12 : sentAt / 1000 < 10 ^ 12) (hnow : |now - sentAt / 1000| ≤ tolerance) :
    verified rt keys' tolerance now (postHeaders rt keys event (bodyOf event) sentAt)
      (bodyOf event) =
      some event := by
  have htoNat : ((sentAt / 1000).toNat : ℤ) = sentAt / 1000 := Int.toNat_of_nonneg h0
  obtain ⟨hid, hstamp, hsignature⟩ := header_postHeaders rt keys event (bodyOf event) sentAt
  rw [verified, hid, hstamp, hsignature]
  simp only [Option.bind_eq_bind, Option.bind_some, stampOf_numberText h0 h12, htoNat]
  rw [if_neg (not_lt.mpr hnow), if_pos (signedBy_postHeaders rt hkey hkey' _ _ _),
    eventOf_bodyOf rt htype hdate]

/-- **Signed webhooks verify exactly.**  What is posted, by a clock of at most twelve digits,
verifies within the tolerance at whoever shares a secret, as the event it is of; and what verifies
is an event posted, with one of the receiver's keys, where no signature is forged and no text holds
half of a surrogate pair. -/
theorem signed_webhooks (rt : Runtime) :
    (∀ (given : Given) (event : UserEvent) (body where_ where' : Str) (senders secrets : List Value)
        (keys keys' : List (List UInt8)) (sentAt at_ clock : ℤ) (tolerance : ℚ)
        (options : VerifyOptions),
      deliverable given where_ = .ok event → bodyFor given where_ = .ok body →
      senders.mapM (fun secret => keyOf rt secret where') = .ok keys →
      secrets.mapM (fun secret => keyOf rt secret (js "verifyWebhook")) = .ok keys' →
      (∃ secret ∈ senders, secret ∈ secrets) →
      options.secrets = some secrets → options.headers = postHeaders rt keys event body sentAt →
      options.body = body → options.toleranceSeconds.getD (some 300) = some tolerance →
      options.now.getD (some clock) = some at_ → 0 ≤ sentAt / 1000 → sentAt / 1000 < 10 ^ 12 →
      |at_ / 1000 - sentAt / 1000| ≤ tolerance → verifyWebhook rt options clock =
        .ok (some event)) ∧
    ∀ (options : VerifyOptions) (clock : ℤ) (event : UserEvent) (secrets : List Value)
        (keys : List (List UInt8)) (posted : List Posting),
      verifyWebhook rt options clock = .ok (some event) → options.secrets = some secrets →
      secrets.mapM (fun secret => keyOf rt secret (js "verifyWebhook")) = .ok keys →
      (∀ header_, header rt (js "webhook-signature") options.headers = some header_ →
        Unforged rt posted keys header_) →
      (∀ id, header rt (js "webhook-id") options.headers = some id → isWellFormed id) →
      isWellFormed options.body → (∀ p ∈ posted, isWellFormed p.event.id) →
      ∃ p ∈ posted, p.key ∈ keys ∧ p.event = event := by
  refine ⟨?_, ?_⟩
  · intro given event body where_ where' senders secrets keys keys' sentAt at_ clock
      tolerance options
      hevent hbody hkeys hkeys' hshared hsecrets hheaders hsent htolerance hat h0 h12 hnow
    obtain ⟨htype, hdate⟩ := of_deliverable hevent
    obtain rfl : bodyOf event = body := by
      rw [bodyFor, hevent] at hbody
      exact Except.ok.inj hbody
    obtain ⟨secret, hsender, hsecret⟩ := hshared
    obtain ⟨key, hkey, hof⟩ := mem_of_mapM hkeys hsender
    obtain ⟨key', hkey', hof'⟩ := mem_of_mapM hkeys' hsecret
    obtain rfl : key = key' := Except.ok.inj ((keyOf_where hof).symm.trans hof')
    have hnonneg : 0 ≤ tolerance := le_trans (by exact_mod_cast abs_nonneg _) hnow
    have hsome : options.secrets.filter (· ≠ []) = some secrets := by
      rw [hsecrets, Option.filter_some, if_pos]
      exact decide_eq_true (List.ne_nil_of_mem hsecret)
    have hpassed : (options.toleranceSeconds.getD (some 300)).filter (0 ≤ ·) = some tolerance := by
      rw [htolerance, Option.filter_some, if_pos (decide_eq_true hnonneg)]
    refine Except.bind_ok.mpr ⟨secrets, required_ok.mpr hsome, Except.bind_ok.mpr ⟨keys', hkeys',
      Except.bind_ok.mpr ⟨tolerance, required_ok.mpr hpassed, Except.bind_ok.mpr ⟨at_,
        required_ok.mpr hat, Except.pure_ok.mpr ?_⟩⟩⟩⟩
    rw [hheaders, hsent]
    exact verified_postHeaders rt hkey hkey' htype hdate h0 h12 (by exact_mod_cast hnow)
  · intro options clock event secrets keys posted h hsecrets hkeys hunforged hid hbody hposted
    obtain ⟨secrets', hsecrets', h⟩ := Except.bind_ok.mp h
    obtain ⟨keys', hkeys', h⟩ := Except.bind_ok.mp h
    obtain ⟨tolerance, -, h⟩ := Except.bind_ok.mp h
    obtain ⟨at_, -, h⟩ := Except.bind_ok.mp h
    have hsome := (Option.filter_eq_some_iff.mp (required_ok.mp hsecrets')).1
    obtain rfl : secrets' = secrets := Option.some.inj (hsome.symm.trans hsecrets)
    obtain rfl : keys' = keys := Except.ok.inj (hkeys'.symm.trans hkeys)
    exact of_unforged (Except.pure_ok.mp h) hunforged hid hbody hposted

/-! ## A secret shared -/

/-- Every byte is a unit of its own, and a MAC shows its key and its message. -/
def plainRuntime : Runtime where
  hmacSha256 key message := (key.flatMap fun b => [1, b]) ++ 0 :: message
  toBase64 bytes := bytes.map fun b => Fin.ofNat 65536 (b.toNat + 256)
  fromBase64 text := text.map fun u => UInt8.ofNat (u.val - 256)
  toLowerCase := id
  otherDate _ := none
  hmac_injective {key key' message message'} h := by
    induction key generalizing key' with
    | nil =>
      cases key' with
      | nil => exact ⟨rfl, List.tail_eq_of_cons_eq h⟩
      | cons b key' => exact absurd (List.head_eq_of_cons_eq h) (by decide)
    | cons a key ih =>
      cases key' with
      | nil => exact absurd (List.head_eq_of_cons_eq h) (by decide)
      | cons b key' =>
        have htail := List.tail_eq_of_cons_eq h
        obtain ⟨rfl, rfl⟩ := ih (List.tail_eq_of_cons_eq htail)
        exact ⟨by rw [List.head_eq_of_cons_eq htail], rfl⟩
  space_notMem_toBase64 bytes h := by
    obtain ⟨b, -, hb⟩ := List.mem_map.mp h
    have hval := congrArg Fin.val hb
    rw [Fin.val_ofNat, Nat.mod_eq_of_lt (by have := b.toNat_lt; omega)] at hval
    exact absurd hval (by change _ ≠ 32; omega)
  toLowerCase_lower _ := rfl

def sharedSecret : Value := .str (js "whsec_" ++ List.replicate 24 321)

def sharedKey : List UInt8 := List.replicate 24 65

/-- An event under an id. -/
def eventWith (id : Str) : Given where
  id := .str id
  type := .str (js "user.created")
  occurredAt := some ⟨0, Date.isMoment_zero⟩
  userId := .str (js "ada")
  userType := .str (js "patient")

def createdEvent (id : Str) : UserEvent := ⟨id, js "user.created", 0, js "ada", js "patient"⟩

/-- What the receiver of a request posted at a moment is passed, then. -/
def receivedAt (id : Str) (sentAt : ℤ) : VerifyOptions where
  secrets := some [sharedSecret]
  headers := postHeaders plainRuntime [sharedKey] (createdEvent id)
    (bodyOf (createdEvent id)) sentAt
  body := bodyOf (createdEvent id)
  now := some (some sentAt)

theorem keyOf_shared (where_ : Str) :
    [sharedSecret].mapM (fun secret => keyOf plainRuntime secret where_) = .ok [sharedKey] := by rfl

def posting (id : Str) (timestamp : ℤ) : Posting where
  key := sharedKey
  event := createdEvent id
  timestamp := timestamp
  given := eventWith id
  where_ := js "webhooks"
  accepted := rfl

theorem utf8_signature_injective {mac mac' : List UInt8}
    (h : utf8 (signature plainRuntime mac) = utf8 (signature plainRuntime mac')) : mac = mac' := by
  have hbyte : ∀ b : UInt8, (Fin.ofNat 65536 (b.toNat + 256)).val = b.toNat + 256 := fun b =>
    Nat.mod_eq_of_lt (by have := b.toNat_lt; omega)
  have hwell : ∀ mac, isWellFormed (signature plainRuntime mac) := fun mac => by
    refine isWellFormed_append (by decide) (isWellFormed_of_forall fun u hu => ?_)
    obtain ⟨b, -, rfl⟩ := List.mem_map.mp hu
    have := b.toNat_lt
    rw [hbyte]
    omega
  refine List.map_injective_iff.mpr (fun a b hab => ?_)
    (List.append_cancel_left (utf8_injective (hwell mac) (hwell mac') h))
  have hval := congrArg Fin.val hab
  rw [hbyte, hbyte] at hval
  exact UInt8.toNat_inj.mp (by omega)

/-- The one signature of a header is the one posted. -/
theorem unforged_one {p : Posting} {keys : List (List UInt8)} {header_ : Str}
    (h : header_ = signature plainRuntime (p.mac plainRuntime)) :
    Unforged plainRuntime [p] keys header_ := by
  have hspace : (32 : CodeUnit) ∉ header_ := fun hm =>
    (List.mem_append.mp (h ▸ hm)).elim (by decide)
    (plainRuntime.space_notMem_toBase64 _)
  have hsplit : header_.splitOn 32 = [header_] := by
    have hone : ([32].intercalate [header_]).splitOn 32 = [header_] :=
      List.splitOn_intercalate 32 (by simpa using hspace) (by simp)
    simpa using hone
  intro key _ message given hgiven hbytes
  obtain rfl := List.mem_singleton.mp (hsplit ▸ hgiven)
  exact ⟨p, List.mem_singleton_self p, utf8_signature_injective (h ▸ hbytes)⟩

theorem header_receivedAt (id : Str) (sentAt : ℤ) :
    header plainRuntime (js "webhook-signature") (receivedAt id sentAt).headers =
      some (sign plainRuntime sharedKey id (sentAt / 1000) (bodyOf (createdEvent id))) := by
  obtain ⟨-, -, hsignature⟩ :=
    header_postHeaders plainRuntime [sharedKey] (createdEvent id) (bodyOf (createdEvent id)) sentAt
  refine hsignature.trans ?_
  simp [List.intercalate, createdEvent]

/-- What is posted, received, verifies; and what verifies was posted. -/
theorem signed_webhooks_shared :
    verifyWebhook plainRuntime (receivedAt (js "0199") 1000) 0 =
    .ok (some (createdEvent (js "0199"))) ∧
      ∃ p ∈ [posting (js "0199") 1], p.key ∈ [sharedKey] ∧ p.event = createdEvent (js "0199") := by
  have hverified := (signed_webhooks plainRuntime).1 (eventWith (js "0199"))
    (createdEvent (js "0199"))
    (bodyOf (createdEvent (js "0199"))) (js "webhooks") (js "webhooks") [sharedSecret]
      [sharedSecret]
    [sharedKey] [sharedKey] 1000 1000 0 300 (receivedAt (js "0199") 1000) rfl rfl (keyOf_shared _)
    (keyOf_shared _) ⟨sharedSecret, List.mem_cons_self, List.mem_cons_self⟩ rfl rfl rfl rfl rfl
    (by decide) (by decide) (by norm_num)
  refine ⟨hverified, (signed_webhooks plainRuntime).2 (receivedAt (js "0199") 1000) 0
    (createdEvent (js "0199")) [sharedSecret] [sharedKey] [posting (js "0199") 1] hverified rfl
    (keyOf_shared _) (fun header_ h => unforged_one ?_) ?_
    (isWellFormed_bodyOf _) ?_⟩
  · exact Option.some.inj (h.symm.trans (header_receivedAt _ _))
  · rintro id ⟨⟩
    decide
  · intro p hp
    rw [List.mem_singleton.mp hp]
    decide

/-! ## Half of a pair, and thirteen digits -/

/-- **Not every text, and not every clock.**  An event under half of a surrogate pair is signed as
the one under `U+FFFD`, which verifies and was never posted; and what a clock of thirteen digits
posts does not verify. -/
theorem not_signed_webhooks :
    (verifyWebhook plainRuntime (receivedAt [0xFFFD] 1000) 0 = .ok (some (createdEvent [0xFFFD])) ∧
      (∀ header_, header plainRuntime (js "webhook-signature") (receivedAt [0xFFFD] 1000).headers =
        some header_ → Unforged plainRuntime [posting [0xD800] 1] [sharedKey] header_) ∧
      ∀ p ∈ [posting [0xD800] 1], p.event ≠ createdEvent [0xFFFD]) ∧
    verifyWebhook plainRuntime (receivedAt (js "0199") (10 ^ 15)) 0 = .ok none := by
  have hsame : utf8 (signedText [0xD800] 1 (bodyOf (createdEvent [0xD800]))) =
      utf8 (signedText [0xFFFD] 1 (bodyOf (createdEvent [0xFFFD]))) := rfl
  refine ⟨⟨?_, fun header_ h => unforged_one ?_, fun p hp => ?_⟩, ?_⟩
  · exact Except.bind_ok.mpr ⟨[sharedSecret], rfl, Except.bind_ok.mpr ⟨[sharedKey], keyOf_shared _,
      Except.bind_ok.mpr ⟨300, rfl, Except.bind_ok.mpr ⟨1000, rfl, Except.pure_ok.mpr
        (verified_postHeaders plainRuntime List.mem_cons_self List.mem_cons_self (by decide) (by decide)
          (by decide) (by decide) (by norm_num))⟩⟩⟩⟩
  · have hsign := Option.some.inj (h.symm.trans (header_receivedAt [0xFFFD] 1000))
    rw [hsign]
    exact congrArg (fun text =>
      signature plainRuntime (plainRuntime.hmacSha256 sharedKey text)) hsame.symm
  · rw [List.mem_singleton.mp hp]
    decide
  · have hnone : verified plainRuntime [sharedKey] 300 (10 ^ 15 / 1000)
        (receivedAt (js "0199") (10 ^ 15)).headers (bodyOf (createdEvent (js "0199"))) = none := by
      obtain ⟨hid, hstamp, hsignature⟩ := header_postHeaders plainRuntime [sharedKey]
        (createdEvent (js "0199")) (bodyOf (createdEvent (js "0199"))) (10 ^ 15)
      have hlong : stampOf (numberText (10 ^ 15 / 1000)) = none := by decide +kernel
      rw [verified, receivedAt, hid, hstamp, hsignature]
      simp only [Option.bind_eq_bind, Option.bind_some, hlong, Option.bind_none]
    exact Except.bind_ok.mpr ⟨[sharedSecret], rfl, Except.bind_ok.mpr ⟨[sharedKey], keyOf_shared _,
      Except.bind_ok.mpr ⟨300, rfl, Except.bind_ok.mpr ⟨10 ^ 15, rfl, Except.pure_ok.mpr hnone⟩⟩⟩⟩

end Janus.Webhooks
