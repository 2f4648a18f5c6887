import NilsCli.Tracker.Grammar

/-!
# Row lines

What a row line that matches the grammar consists of (`parseRow_iff`), and that the ids of its row
are ids of the grammar (`hasIds_parse`).
-/

namespace NilsCli.Tracker

open Lib

variable {line : Line} {row : Row} {spans : RowSpans}

/-! ## The parts of a row line -/

/-- What stands in front of the notes of a text. -/
def frontOf (text : Line) : Line :=
  match notesGroup text with
  | some (front, _) => trim front
  | none => text

/-- What stands in front of the reference. -/
def titleOf (front : Line) : Line :=
  match refSuffix front with
  | some (title, _) => trim title
  | none => front

/-- The row of a text with its dependencies. -/
def rowWith (done : Bool) (id text : Line) (after : List Line) : Row where
  id := .ofList id
  title := .ofList (titleOf (frontOf text))
  reference := (refSuffix (frontOf text)).map (·.2)
  notes := (notesGroup text).map fun (_, inner) => .ofList (trim inner)
  after := after.map .ofList
  done
  phase := none
  line := 0

def spansAt (textStart : Nat) (text : Line) : RowSpans where
  textEnd := textStart + text.length
  notes := (notesGroup text).map fun (front, _) =>
    (textStart + front.length, textStart + text.length - 1)

structure RowParts (line : Line) (done : Bool) (id tail head : Line) (after : List Line) : Prop where
  isPrefix : rowPrefix line = some (done, id, tail)
  blank : tail.head? = some ' '
  clause : clauseOf tail = some (head, after)
  titled : titleOf (frontOf (trim head)) ≠ []

theorem parseRow_iff :
    parseRow line = some (row, spans) ↔ ∃ done id tail head after,
      RowParts line done id tail head after ∧ row = rowWith done id (trim head) after ∧
        spans = spansAt (line.length - tail.length +
          (head.length - (head.dropWhile isBlank).length)) (trim head) := by
  unfold parseRow
  simp only [Option.bind_eq_bind, Option.bind_eq_some_iff]
  constructor
  · rintro ⟨⟨done, id, tail⟩, hfront, h⟩
    dsimp only at h
    split at h
    next => cases h
    next hblank =>
      rw [Option.bind_eq_some_iff] at h
      obtain ⟨⟨head, after⟩, hclause, h⟩ := h
      refine ⟨done, id, tail, head, after, ?_⟩
      change (if titleOf (frontOf (trim head)) = [] then none else
        some (rowWith done id (trim head) after, spansAt _ (trim head))) = some (row, spans) at h
      split at h
      next => cases h
      next htitle =>
        cases h
        exact ⟨⟨hfront, not_not.mp hblank, hclause, htitle⟩, rfl, rfl⟩
  · rintro ⟨done, id, tail, head, after, ⟨hfront, hblank, hclause, htitle⟩, rfl, rfl⟩
    refine ⟨_, hfront, ?_⟩
    dsimp only
    rw [if_neg (not_not.mpr hblank), hclause]
    change (if titleOf (frontOf (trim head)) = [] then none else
      some (rowWith done id (trim head) after, spansAt _ (trim head))) = _
    rw [if_neg htitle]

/-! ## Ids -/

theorem isId_iff {text : Line} (h : isId text = true) :
    text ≠ [] ∧ ∀ c ∈ text, isAsciiAlphanumeric c = true := by
  cases text with
  | nil => simp [isId] at h
  | cons c cs =>
    rw [isId, Bool.and_eq_true_iff, List.all_eq_true] at h
    refine ⟨by simp, ?_⟩
    rw [List.forall_mem_cons]
    exact ⟨by simp [isAsciiAlphanumeric, h.1], h.2⟩

theorem isId_parseEntries {seen entries ids : List Line} (h : parseEntries seen entries = some ids) :
    ∀ id ∈ ids, isId id = true := by
  induction entries generalizing seen ids with
  | nil =>
    rw [parseEntries, Option.some.injEq] at h
    simp [← h]
  | cons entry entries ih =>
    dsimp only [parseEntries] at h
    split at h
    next => cases h
    next hvalid =>
      obtain ⟨rest, hrest, rfl⟩ := Option.map_eq_some_iff.mp h
      rw [List.forall_mem_cons]
      exact ⟨by simpa using (not_or.mp hvalid).1, ih hrest⟩

theorem isId_clauseOf {tail head : Line} {after : List Line} (h : clauseOf tail = some (head, after)) :
    ∀ id ∈ after, isId id = true := by
  unfold clauseOf at h
  split at h
  next =>
    cases h
    simp
  next =>
    obtain ⟨ids, hids, heq⟩ := Option.map_eq_some_iff.mp h
    cases heq
    exact isId_parseEntries hids

/-- The mark of a row line. -/
def markDone (line : Line) : Option Bool :=
  if "- [ ] ".toList.isPrefixOf line then some false
  else if "- [x] ".toList.isPrefixOf line || "- [X] ".toList.isPrefixOf line then some true
  else none

theorem rowPrefix_eq (line : Line) : rowPrefix line = (markDone line).bind fun done =>
    (dropPrefix? (line.drop 6) "**".toList).bind fun rest => (splitStars rest).bind fun parts =>
      if isId parts.1 then some (done, parts.1, parts.2) else none := by
  unfold rowPrefix markDone
  split
  next => rfl
  next => split <;> rfl

theorem rowPrefix_iff {id tail : Line} {done : Bool} :
    rowPrefix line = some (done, id, tail) ↔ markDone line = some done ∧
      ∃ rest, dropPrefix? (line.drop 6) "**".toList = some rest ∧ splitStars rest = some (id, tail) ∧
        isId id = true := by
  rw [rowPrefix_eq]
  simp only [Option.bind_eq_some_iff]
  constructor
  · rintro ⟨done', hdone, rest, hrest, ⟨id', tail'⟩, hsplit, h⟩
    dsimp only at h
    split at h
    next hid =>
      cases h
      exact ⟨hdone, rest, hrest, hsplit, hid⟩
    next => cases h
  · rintro ⟨hdone, rest, hrest, hsplit, hid⟩
    exact ⟨done, hdone, rest, hrest, (id, tail), hsplit, by rw [if_pos hid]⟩

def Row.HasIds (row : Row) : Prop :=
  isId row.id.toList = true ∧ ∀ dependency ∈ row.after, isId dependency.toList = true

theorem hasIds_of_parseRow (h : parseRow line = some (row, spans)) : row.HasIds := by
  obtain ⟨done, id, tail, head, after, hparts, rfl, -⟩ := parseRow_iff.mp h
  obtain ⟨-, rest, -, -, hid⟩ := rowPrefix_iff.mp hparts.isPrefix
  refine ⟨by simpa [rowWith] using hid, fun dependency hdependency => ?_⟩
  obtain ⟨text, htext, rfl⟩ := List.mem_map.mp hdependency
  simpa using isId_clauseOf hparts.clause text htext

theorem hasIds_rowLine {phase : Option String} {at_ : Nat}
    (h : rowLine phase at_ line = .row row spans) : row.HasIds := by
  unfold rowLine at h
  split at h
  next row' spans' hparse =>
    cases h
    exact (hasIds_of_parseRow hparse : row'.HasIds)
  next => cases h

theorem hasIds_scanFrom {at_ : Nat} {phase : Option String} {ls : List Line} {place : Nat}
    (h : (place, .row row spans) ∈ scanFrom at_ phase ls) :
    row.HasIds := by
  fun_induction scanFrom at_ phase ls with
  | case1 => simp at h
  | case2 _ _ _ _ _ _ ih => exact ih h
  | case3 at_ phase line _ _ _ ih =>
    rcases List.mem_cons.mp h with heq | h
    · exact hasIds_rowLine (Prod.ext_iff.mp heq).2.symm
    · exact ih h
  | case4 _ _ _ _ _ _ ih => exact ih h

theorem hasIds_parse {body : String} (h : row ∈ (parse body).rows) : row.HasIds := by
  unfold parse tableOf at h
  obtain ⟨⟨place, line⟩, hline, heq⟩ := List.mem_filterMap.mp h
  unfold scan at hline
  split at hline
  next => simp at hline
  next =>
    cases line with
    | row row' spans =>
      cases heq
      exact hasIds_scanFrom hline
    | malformed => cases heq

end NilsCli.Tracker
