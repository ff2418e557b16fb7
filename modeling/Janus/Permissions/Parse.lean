import Janus.Permissions.Memory

/-!
# Permissions/Parse — the notation read back

`parseTuple` reads what `formatTuple` writes, and accepts nothing else (`parseTuple_ok`): its two
expressions split where no class holds the separator, so a text is matched in one way at most.  A
class that leaves out the separators takes line ends too, but a `.` takes none: of what may be
written, only a subject whose id holds a line end is refused.
-/

namespace Janus.Permissions

open Js

/-! ## The expressions -/

/-- `[^@#()]`. -/
def isIdUnit (u : CodeUnit) : Bool := !isReserved u

/-- `[^:@#()]`. -/
def isPartUnit (u : CodeUnit) : Bool := u ≠ 58 && !isReserved u

/-- `.`: no line end. -/
def isLineUnit (u : CodeUnit) : Bool := u ≠ 10 && u ≠ 13 && u ≠ 8232 && u ≠ 8233

/-- `([…]+)`, up to a separator the class leaves out, and what follows it. -/
def capture (ok : CodeUnit → Bool) (sep : CodeUnit) (text : Str) : Option (Str × Str) :=
  match text.takeWhile ok, text.dropWhile ok with
  | u :: part, v :: rest => if v = sep then some (u :: part, rest) else none
  | _, _ => none

/-- What `TUPLE` captures: the object's type and id, the relation, and the text of the subject. -/
def tupleParts (text : Str) : Option (Str × Str × Str × Str) := do
  let (type, text) ← capture isPartUnit 58 text
  let (id, text) ← capture isIdUnit 35 text
  let (relation, text) ← capture isPartUnit 64 text
  if text ≠ [] ∧ text.all isLineUnit then some (type, id, relation, text) else none

/-- What `SUBJECT` captures: a type, an id, and the relation of a set. -/
def subjectParts (text : Str) : Option (Str × Str × Option Str) := do
  let (type, text) ← capture isPartUnit 58 text
  if text ≠ [] ∧ text.all isIdUnit then some (type, text, none)
  else
    let (id, relation) ← capture isIdUnit 35 text
    if relation ≠ [] ∧ relation.all isPartUnit then some (type, id, some relation) else none

/-! ## The readers -/

/-- Reads one subject back: `staff:u1`, or `team:t1#member`. -/
def parseSubject (text : Str) : Except Failure Subject :=
  match subjectParts text with
  | none => throw <| .typeError <| js "parseSubject: \"" ++ text ++
      js "\" is not a subject; expected type:id, or type:id#relation for a subject set"
  | some (type, id, none) => pure (.entity ⟨type, id⟩)
  | some (type, id, some relation) => pure (.set ⟨⟨type, id⟩, relation⟩)

/-- Reads a tuple back. -/
def parseTuple (text : Str) : Except Failure RelationTuple :=
  match tupleParts text with
  | none => throw <| .typeError <| js "parseTuple: \"" ++ text ++
      js "\" is not a relation tuple; expected type:id#relation@subject"
  | some (type, id, relation, subject) => do
    let subject ← parseSubject subject
    pure ⟨⟨type, id⟩, relation, subject⟩

/-! ## What they match -/

/-- **A part is captured in one way**: whole, up to the separator. -/
theorem capture_eq_some {ok : CodeUnit → Bool} {sep : CodeUnit} (hsep : ok sep = false)
    {text part rest : Str} :
    capture ok sep text = some (part, rest) ↔
      text = part ++ sep :: rest ∧ part ≠ [] ∧ part.all ok = true := by
  constructor
  · intro h
    have htext := List.takeWhile_append_dropWhile (p := ok) (l := text)
    rw [capture] at h
    split at h
    case h_1 u part' v rest' htake hdrop =>
      split at h
      case isTrue hv =>
        obtain ⟨rfl, rfl⟩ : u :: part' = part ∧ rest' = rest := by simpa using h
        rw [htake, hdrop, hv] at htext
        exact ⟨htext.symm, List.cons_ne_nil _ _, htake ▸ List.all_takeWhile⟩
      case isFalse => cases h
    case h_2 => cases h
  · rintro ⟨rfl, hne, hall⟩
    obtain ⟨u, part, rfl⟩ := List.exists_cons_of_ne_nil hne
    have hall := List.all_eq_true.mp hall
    rw [capture, List.takeWhile_append_of_pos hall, List.takeWhile_cons_of_neg (by simp [hsep]),
      List.dropWhile_append_of_pos hall, List.dropWhile_cons_of_neg (by simp [hsep]),
      List.append_nil]
    exact if_pos rfl

/-- A name `TYPE` or `RELATION` takes. -/
def IsPart (part : Str) : Prop := part ≠ [] ∧ part.all isPartUnit = true

/-- An id `ID` takes: what `idOf` accepts. -/
theorem isId_iff {id : Str} : isId id = true ↔ id ≠ [] ∧ id.all isIdUnit = true := by
  simp [isId, isIdUnit]

theorem tupleParts_eq_some {text type id relation subject : Str} :
    tupleParts text = some (type, id, relation, subject) ↔
      text = type ++ 58 :: (id ++ 35 :: (relation ++ 64 :: subject)) ∧ IsPart type ∧
        isId id = true ∧ IsPart relation ∧ subject ≠ [] ∧ subject.all isLineUnit = true := by
  simp only [tupleParts, Option.bind_eq_bind, Option.bind_eq_some_iff, Prod.exists,
    capture_eq_some (show isPartUnit 58 = false from rfl),
    capture_eq_some (show isPartUnit 64 = false from rfl),
    capture_eq_some (show isIdUnit 35 = false from rfl), isId_iff, IsPart]
  constructor
  · rintro ⟨type', _, ⟨rfl, htype⟩, id', _, ⟨rfl, hid⟩, relation', subject', ⟨rfl, hrelation⟩, h⟩
    split at h
    case isTrue hsubject =>
      obtain ⟨rfl, rfl, rfl, rfl⟩ : type' = type ∧ id' = id ∧ relation' = relation ∧
        subject' = subject := by simpa using h
      exact ⟨rfl, htype, hid, hrelation, hsubject⟩
    case isFalse => cases h
  · rintro ⟨rfl, htype, hid, hrelation, hsubject⟩
    exact ⟨_, _, ⟨rfl, htype⟩, _, _, ⟨rfl, hid⟩, _, _, ⟨rfl, hrelation⟩, if_pos hsubject⟩

theorem subjectParts_eq_some {text type id : Str} {relation : Option Str} :
    subjectParts text = some (type, id, relation) ↔
      text = type ++ 58 :: (id ++ (relation.map ((35 : CodeUnit) :: ·)).getD []) ∧ IsPart type ∧
        isId id = true ∧ ∀ r ∈ relation, IsPart r := by
  simp only [subjectParts, Option.bind_eq_bind, Option.bind_eq_some_iff, Prod.exists,
    capture_eq_some (show isPartUnit 58 = false from rfl)]
  constructor
  · rintro ⟨type', rest, ⟨rfl, htype⟩, h⟩
    split at h
    case isTrue hid =>
      obtain ⟨rfl, rfl, rfl⟩ : type' = type ∧ rest = id ∧ none = relation := by simpa using h
      exact ⟨by simp, htype, isId_iff.mpr hid, by simp⟩
    case isFalse =>
      obtain ⟨⟨id', relation'⟩, hcapture, hset⟩ := Option.bind_eq_some_iff.mp h
      obtain ⟨rfl, hid⟩ := (capture_eq_some rfl).mp hcapture
      dsimp only at hset
      split at hset
      case isTrue hrelation =>
        obtain ⟨rfl, rfl, rfl⟩ : type' = type ∧ id' = id ∧ some relation' = relation := by
          simpa using hset
        refine ⟨rfl, htype, isId_iff.mpr hid, ?_⟩
        rintro r ⟨⟩
        exact hrelation
      case isFalse => cases hset
  · rintro ⟨rfl, htype, hid, hrelation⟩
    refine ⟨type, _, ⟨rfl, htype⟩, ?_⟩
    have hid := isId_iff.mp hid
    cases relation with
    | none => rw [Option.map_none, Option.getD_none, List.append_nil, if_pos hid]
    | some relation =>
      rw [Option.map_some, Option.getD_some, if_neg (by simp [isIdUnit, isReserved]),
        (capture_eq_some rfl).mpr ⟨rfl, hid⟩]
      exact if_pos (hrelation relation rfl)

/-! ## A round trip either way -/

/-- A subject each part of which an expression takes. -/
structure Subject.Readable (subject : Subject) : Prop where
  type : IsPart subject.type
  id : isId subject.id = true
  relation : ∀ s, subject = .set s → IsPart s.relation

/-- **A subject is read from its notation**, and from nothing else. -/
theorem parseSubject_ok {text : Str} {subject : Subject} :
    parseSubject text = .ok subject ↔ text = formatSubject subject ∧ subject.Readable := by
  rw [parseSubject]
  constructor
  · intro h
    split at h
    case h_1 => cases h
    case h_2 type id hparts =>
      obtain rfl := Except.pure_ok.mp h
      obtain ⟨rfl, htype, hid, -⟩ := subjectParts_eq_some.mp hparts
      exact ⟨by simp [formatSubject, formatEntity], htype, hid, nofun⟩
    case h_3 type id relation hparts =>
      obtain rfl := Except.pure_ok.mp h
      obtain ⟨rfl, htype, hid, hrelation⟩ := subjectParts_eq_some.mp hparts
      refine ⟨by simp [formatSubject, formatEntity], htype, hid, ?_⟩
      rintro s ⟨⟩
      exact hrelation relation rfl
  · rintro ⟨rfl, htype, hid, hrelation⟩
    cases subject with
    | entity e =>
      have hparts : subjectParts (formatSubject (.entity e)) = some (e.type, e.id, none) :=
        subjectParts_eq_some.mpr ⟨by simp [formatSubject, formatEntity], htype, hid, by simp⟩
      rw [hparts]
      rfl
    | set s =>
      have hparts : subjectParts (formatSubject (.set s)) = some (s.type, s.id, some s.relation) :=
        subjectParts_eq_some.mpr ⟨by simp [formatSubject, formatEntity], htype, hid,
          by simpa using hrelation s rfl⟩
      rw [hparts]
      rfl

/-- **A tuple is read from its notation**, unless the text of its subject holds a line end; and from
nothing else. -/
theorem parseTuple_ok {text : Str} {tuple : RelationTuple} :
    parseTuple text = .ok tuple ↔ text = formatTuple tuple ∧ IsPart tuple.object.type ∧
      isId tuple.object.id = true ∧ IsPart tuple.relation ∧ tuple.subject.Readable ∧
      (formatSubject tuple.subject).all isLineUnit = true := by
  rw [parseTuple]
  constructor
  · intro h
    split at h
    case h_1 => cases h
    case h_2 type id relation subject hparts =>
      obtain ⟨rfl, htype, hid, hrelation, -, hline⟩ := tupleParts_eq_some.mp hparts
      obtain ⟨who, hwho, h⟩ := Except.bind_ok.mp h
      obtain rfl := Except.pure_ok.mp h
      obtain ⟨rfl, hreadable⟩ := parseSubject_ok.mp hwho
      exact ⟨by simp [formatTuple, formatEntity], htype, hid, hrelation, hreadable, hline⟩
  · rintro ⟨rfl, htype, hid, hrelation, hreadable, hline⟩
    have hsubject : formatSubject tuple.subject ≠ [] := by
      cases tuple.subject <;> simp [formatSubject, formatEntity]
    rw [tupleParts_eq_some.mpr ⟨by simp [formatTuple, formatEntity], htype, hid, hrelation, hsubject,
      hline⟩]
    dsimp only
    rw [parseSubject_ok.mpr ⟨rfl, hreadable⟩]
    rfl

/-! ## What may be written -/

/-- A letter or a digit is in every class. -/
theorem classes_of_isName {name : Str} (h : isName name = true) {u : CodeUnit} (hu : u ∈ name) :
    isPartUnit u = true ∧ isLineUnit u = true := by
  have hletter := isName_mem h hu
  simp only [Bool.or_eq_true, Bool.and_eq_true, decide_eq_true_eq] at hletter
  simp only [isPartUnit, isReserved, isLineUnit, Bool.and_eq_true, Bool.not_eq_true',
    Bool.or_eq_false_iff, decide_eq_true_eq, decide_eq_false_iff_not, ne_eq, Fin.ext_iff]
  omega

theorem isPart_of_isName {name : Str} (h : isName name = true) : IsPart name := by
  refine ⟨?_, List.all_eq_true.mpr fun u hu => (classes_of_isName h hu).1⟩
  rintro rfl
  cases h

theorem Subject.WellFormed.readable {subject : Subject} (h : subject.WellFormed) :
    subject.Readable :=
  ⟨isPart_of_isName h.type, h.id, fun s hs => isPart_of_isName (h.relation s hs)⟩

/-- The text of a subject holds a line end where its id does. -/
theorem Subject.WellFormed.all_isLineUnit {subject : Subject} (h : subject.WellFormed) :
    (formatSubject subject).all isLineUnit = subject.id.all isLineUnit := by
  have hname : ∀ {name}, isName name = true → name.all isLineUnit = true := fun h =>
    List.all_eq_true.mpr fun u hu => (classes_of_isName h hu).2
  cases subject with
  | entity e =>
    have htype := hname h.type
    simp only [formatSubject, formatEntity, List.all_append, List.all_cons, Subject.type] at htype ⊢
    rw [htype]
    rfl
  | set s =>
    have htype := hname h.type
    have hrelation := hname (h.relation s rfl)
    simp only [formatSubject, formatEntity, List.all_append, List.all_cons, Subject.type] at htype ⊢
    rw [htype, hrelation]
    exact Bool.and_true _

/-- **A tuple a write may hold is read back exactly when its subject's id holds no line end**, and
what is read is what was written. -/
theorem notation_bijection {Ctx : Type} {model : ResolvedModel Ctx} {object subject : Arg}
    {relation where_ : Str} {tuple : RelationTuple}
    (htuple : tupleOf model object relation subject where_ = .ok tuple) :
    (parseTuple (formatTuple tuple) = .ok tuple ↔ ∀ u ∈ tuple.subject.id, isLineUnit u = true) ∧
    ∀ text read, parseTuple text = .ok read → formatTuple read = text := by
  refine ⟨?_, fun text read h => (parseTuple_ok.mp h).1.symm⟩
  have hwell := (tupleOf_ok htuple).1
  rw [parseTuple_ok, hwell.subject.all_isLineUnit, List.all_eq_true]
  exact ⟨fun h => h.2.2.2.2.2, fun h => ⟨rfl, isPart_of_isName hwell.objectType, hwell.objectId,
    isPart_of_isName hwell.relation, hwell.subject.readable, h⟩⟩

/-- A user views a `doc`. -/
def viewing (id : Str) : Except Failure RelationTuple :=
  tupleOf (viewers (js "staff") isName_staff) doc (js "viewer")
    (.record (.of [(js "type", .str (js "staff")), (js "id", .str id)] false)) (js "grant")

/-- An id may hold a colon. -/
theorem notation_bijection_colon :
    parseTuple (js "doc:d1#viewer@staff:u:1") = .ok (view (js "staff") (js "u:1")) := by
  have h : viewing (js "u:1") = .ok (view (js "staff") (js "u:1")) := rfl
  exact (notation_bijection h).1.mpr (List.all_eq_true.mp rfl)

/-- …and a line end, where the tuple is not read back. -/
theorem notation_lineEnd :
    viewing (js "u\n1") = .ok (view (js "staff") (js "u\n1")) ∧
      parseTuple (formatTuple (view (js "staff") (js "u\n1"))) = .error (.typeError
        (js "parseTuple: \"doc:d1#viewer@staff:u\n1\" is not a relation tuple; expected " ++
          js "type:id#relation@subject")) :=
  ⟨rfl, rfl⟩

end Janus.Permissions
