import NilsCli.Devlog.RoundTrip
import NilsCli.Devlog.Settle

/-!
# Folding fragments

A fold moves the pending fragments dated before the cutoff into their month files.
-/

namespace NilsCli.Devlog

open Lib

/-! ## Checking contents -/

/-- `SECTIONS`. -/
def sectionLabels : List Text :=
  ["Result".toList, "Why / context".toList, "Evidence".toList, "Links".toList, "Follow-ups".toList]

def requiredSections : List Text := ["Result".toList, "Why / context".toList, "Evidence".toList]

inductive ContentsProblem where
  | conflictMarkers (line : Nat)
  | unterminatedFence (line : Nat)
  | missingHeading (first : Text)
  | malformedEntryHeading (title : Text)
  | missingSection (title required : Text)
  | unknownSection (title label : Text)
  | dateMonthMismatch (date : Text)
  | notNewestFirst

structure CheckedEntry where
  title : Text
  labels : List Text

/-- The date of an entry heading. -/
def CheckedEntry.date (entry : CheckedEntry) : Option Text :=
  (splitOnce " - ".toList entry.title).map fun parts => trimmed parts.1

/-- The loop over the structural lines. -/
def checkedEntries : List Text → Option CheckedEntry → List CheckedEntry
  | [], current => current.toList
  | line :: lines, current =>
    match "## ".toList.isPrefixOf? line with
    | some rest => current.toList ++ checkedEntries lines (some ⟨trimmed rest, []⟩)
    | none =>
      match "### ".toList.isPrefixOf? line with
      | some label =>
        checkedEntries lines
          (current.map fun entry => { entry with labels := entry.labels ++ [trimmed label] })
      | none => checkedEntries lines current

def dateBelongsTo (date : Text) (month : Month) : Bool :=
  match date.reverse with
  | c :: d :: '-' :: rest => isAsciiDigit c && isAsciiDigit d && rest.reverse = month.text
  | _ => false

def checkContents (month : Month) (contents : Text) : List ContentsProblem :=
  match firstConflictMarker contents with
  | some line => [.conflictMarkers line]
  | none =>
    let lines := linesOf contents
    let first := trimmed (lines.headD [])
    let structural := ((structuralLineMask lines).zip lines).filterMap fun row =>
      if row.1 then some row.2 else none
    let entries := checkedEntries structural none
    let dates := entries.filterMap CheckedEntry.date
    (unterminatedFenceLine lines).toList.map .unterminatedFence ++
      (if first = month.heading then [] else [.missingHeading first]) ++
      (entries.filter (·.date.isNone)).map (fun entry => .malformedEntryHeading entry.title) ++
      entries.flatMap (fun entry =>
        (requiredSections.filter (!entry.labels.contains ·)).map (.missingSection entry.title) ++
          (entry.labels.filter (!sectionLabels.contains ·)).map (.unknownSection entry.title)) ++
      (dates.filter fun date => !dateBelongsTo date month).map .dateMonthMismatch ++
      (if sortBy (fun a b => decide (b ≤ a)) dates = dates then [] else [.notNewestFirst])

/-! ## The directory -/

structure Log where
  index : Option Text
  months : SortedMap Month Text
  pending : SortedMap Text Text

/-- A file of the log. -/
inductive Place where
  | index
  | month (month : Month)
  | fragment (name : Text)

/-- Why a fold refuses. -/
inductive FoldError where
  | missingIndex
  | fault (place : Place) (fault : Fault)

/-- A loaded fragment. -/
structure Fragment where
  name : Text
  entry : Block
  valid : validSlug entry.slug = true

def load (row : Text × Text) : Except FoldError Fragment :=
  let refuse (detail : String) : Except FoldError Fragment :=
    .error (.fault (.fragment row.1) (.invalid detail.toList))
  match ".md".toList.isSuffixOf? row.1 with
  | none => refuse "expected YYYY-MM-DD-slug.md"
  | some id =>
    match parseDate (id.take 10) with
    | none => refuse "invalid fragment date"
    | some date =>
      match ['-'].isPrefixOf? (id.drop 10) with
      | none => refuse "invalid fragment slug"
      | some slug =>
        if hslug : validSlug slug = true then
          match blocks row.2 with
          | .error fault => .error (.fault (.fragment row.1) fault)
          | .ok [entry] =>
            if sectionMark.isPrefixOf row.2 then
              if h : entry.date = date ∧ entry.identity = id ∧ entry.slug = slug then
                if checkContents date.month (date.month.heading ++ "\n\n".toList ++ row.2) = [] then
                  .ok ⟨row.1, entry, by rw [h.2.2, hslug]⟩
                else refuse "fragment entry does not satisfy the entry template"
              else refuse "fragment identity must match its filename and heading date"
            else refuse "fragment must contain exactly one entry"
          | .ok _ => refuse "fragment must contain exactly one entry"
        else refuse "invalid fragment slug"

/-- How the index lists a fragment. -/
def Fragment.listed (fragment : Fragment) : PendingEntry where
  date := fragment.entry.date
  slug := fragment.entry.slug
  valid := by
    have hvalid := fragment.valid
    rw [validSlug, decide_eq_true_iff] at hvalid
    exact hvalid

/-! ## The fold -/

def monthDocument (log : Log) (month : Month) : Except FoldError Document :=
  match log.months.find? month with
  | none => .ok (Document.empty month)
  | some contents =>
    match Document.parse contents with
    | .error fault => .error (.fault (.month month) fault)
    | .ok doc =>
      if doc.month ≠ month then
        .error (.fault (.month month) (.invalid "month heading disagrees with filename".toList))
      else .ok doc

def Document.place (doc : Document) (entry : Block) : Except Fault Document :=
  match doc.entries.find? entry.identity with
  | some existing =>
    if existing ≠ entry then
      .error (.invalid "fold would overwrite an existing entry identity".toList)
    else .ok doc
  | none => doc.add entry

/-- The document of a month so far. -/
def soFar (log : Log) (documents : SortedMap Month Document) (month : Month) :
    Except FoldError Document :=
  match documents.find? month with
  | some doc => .ok doc
  | none => monthDocument log month

def foldEntry (log : Log) (documents : SortedMap Month Document) (entry : Block) :
    Except FoldError (SortedMap Month Document) :=
  let month := entry.date.month
  match soFar log documents month with
  | .error error => .error error
  | .ok doc =>
    match doc.place entry with
    | .error fault => .error (.fault (.month month) fault)
    | .ok doc => .ok (documents.insert month doc)

/-- A write of a whole file, or a removal. -/
inductive Op where
  | writeMonth (month : Month) (text : Text)
  | writeIndex (text : Text)
  | remove (name : Text)

def fold (log : Log) (today : EntryDate) : Except FoldError (List Op) :=
  match log.index with
  | none => .error .missingIndex
  | some index =>
    match firstConflictMarker index with
    | some line => .error (.fault .index (.conflictMarkers line))
    | none => do
      let fragments ← log.pending.rows.mapM load
      let selected := fragments.filter fun f => f.entry.date < today
      if selected = [] then .ok []
      else do
        let documents ← (selected.map (·.entry)).foldlM (foldEntry log) .empty
        let months := sortDedup (log.months.keys ++ documents.keys)
        let later := fragments.filter fun f => decide (today ≤ f.entry.date)
        let updated := renderIndex index months (renderPending (later.map Fragment.listed))
        .ok (documents.rows.map (fun row => .writeMonth row.1 row.2.render) ++
          (if updated = index then [] else [.writeIndex updated]) ++
          selected.map fun f => .remove f.name)

def Log.apply (log : Log) : Op → Log
  | .writeMonth month text => { log with months := log.months.insert month text }
  | .writeIndex text => { log with index := some text }
  | .remove name =>
    { log with pending := ⟨log.pending.rows.filter fun row => row.1 ≠ name,
      log.pending.sorted.sublist List.filter_sublist⟩ }

def Log.run (log : Log) (ops : List Op) : Log := ops.foldl Log.apply log

inductive FoldCall (today : EntryDate) (log : Log) : Log → Prop where
  | refused {error : FoldError} (h : fold log today = .error error) : FoldCall today log log
  | stopped {ops : List Op} (h : fold log today = .ok ops) (n : Nat) :
    FoldCall today log (log.run (ops.take n))

/-- Calls one after another. -/
inductive FoldCalls (today : EntryDate) (log : Log) : Log → Prop where
  | start : FoldCalls today log log
  | call {mid next : Log} (h : FoldCalls today log mid) (hcall : FoldCall today mid next) :
    FoldCalls today log next

end NilsCli.Devlog

/-!
## Interrupted folds

What a fold does to a month is decided month by month (`foldEntries_ok`), and entries that are there
already change nothing (`placeAll_again`).
-/

namespace NilsCli.Devlog

open Lib

variable {log : Log} {doc doc' : Document} {entry : Block} {entries : List Block}
  {documents documents' : SortedMap Month Document}

/-! ## Placing entries -/

theorem place_eq_ok : doc.place entry = .ok doc' ↔
    (doc.entries.find? entry.identity = some entry ∧ doc' = doc) ∨
    (doc.entries.find? entry.identity = none ∧ doc.add entry = .ok doc') := by
  unfold Document.place
  cases hfind : doc.entries.find? entry.identity with
  | none => simp
  | some existing =>
    simp only [reduceCtorEq, false_and, or_false, Option.some.injEq]
    by_cases heq : existing = entry
    · rw [if_neg (not_not.mpr heq)]
      simp only [heq, true_and, Except.ok.injEq]
      exact eq_comm
    · rw [if_pos heq]
      simp [heq]

theorem placeAll_ok (h : entries.foldlM Document.place doc = .ok doc') :
    doc'.month = doc.month ∧ doc'.preamble = doc.preamble ∧
    (∀ e ∈ entries, doc'.entries.find? e.identity = some e) ∧
    (∀ {k b}, doc.entries.find? k = some b → doc'.entries.find? k = some b) ∧
    ∀ {k b}, doc'.entries.find? k = some b → (b ∈ entries ∧ b.identity = k ∧ b.date.month = doc.month) ∨
      doc.entries.find? k = some b := by
  induction entries generalizing doc with
  | nil =>
    cases h
    exact ⟨rfl, rfl, fun _ h => absurd h List.not_mem_nil, id, .inr⟩
  | cons entry entries ih =>
    rw [List.foldlM_cons] at h
    obtain ⟨mid, hplace, hrest⟩ := bind_eq_ok.mp h
    obtain ⟨hmonth, hpreamble, hmem, hkeep, hfrom⟩ := ih hrest
    rcases place_eq_ok.mp hplace with ⟨hfound, rfl⟩ | ⟨hnew, hadd⟩
    · refine ⟨hmonth, hpreamble, ?_, hkeep, fun {k b} hb => ?_⟩
      · rintro e (_ | ⟨_, he⟩)
        · exact hkeep hfound
        · exact hmem e he
      · rcases hfrom hb with ⟨he, hid, hdate⟩ | hb
        · exact .inl ⟨List.mem_cons_of_mem _ he, hid, hdate⟩
        · exact .inr hb
    · obtain ⟨hdate, -, rfl⟩ := add_eq_ok.mp hadd
      refine ⟨hmonth, hpreamble, ?_, fun {k b} hb => hkeep ?_, fun {k b} hb => ?_⟩
      · rintro e (_ | ⟨_, he⟩)
        · exact hkeep (SortedMap.find?_insert_self _ _ _)
        · exact hmem e he
      · have hk : k ≠ entry.identity := by
          rintro rfl
          rw [hnew] at hb
          cases hb
        rw [SortedMap.find?_insert_of_ne _ _ hk, hb]
      · rcases hfrom hb with ⟨he, hid, hdate'⟩ | hb
        · exact .inl ⟨List.mem_cons_of_mem _ he, hid, hdate'⟩
        · by_cases hk : k = entry.identity
          · rw [hk, SortedMap.find?_insert_self] at hb
            obtain rfl := Option.some.inj hb
            exact .inl ⟨List.mem_cons_self, hk.symm, hdate⟩
          · rw [SortedMap.find?_insert_of_ne _ _ hk] at hb
            exact .inr hb

/-- Entries that are there already change nothing. -/
theorem placeAll_again (h : ∀ e ∈ entries, doc.entries.find? e.identity = some e) :
    entries.foldlM Document.place doc = .ok doc := by
  induction entries with
  | nil => rfl
  | cons entry entries ih =>
    obtain ⟨hentry, hentries⟩ := List.forall_mem_cons.mp h
    rw [List.foldlM_cons, place_eq_ok.mpr (.inl ⟨hentry, rfl⟩)]
    exact ih hentries

theorem placeAll_valid (hdoc : doc.Valid) (hentries : ∀ e ∈ entries, e.Valid)
    (h : entries.foldlM Document.place doc = .ok doc') : doc'.Valid := by
  obtain ⟨hmonth, hpreamble, -, -, hfrom⟩ := placeAll_ok h
  refine ⟨by rw [hpreamble, hdoc.heading, hmonth], hpreamble ▸ hdoc.quiet, hpreamble ▸ hdoc.lines,
    fun {k b} hb => ?_⟩
  rcases hfrom hb with ⟨hmem, hid, hdate⟩ | hb
  · exact ⟨hid, hdate.trans hmonth.symm, hentries b hmem⟩
  · obtain ⟨hid, hdate, hvalid⟩ := hdoc.entries hb
    exact ⟨hid, hdate.trans hmonth.symm, hvalid⟩

/-- Two entries may be placed in either order. -/
theorem place_swap {mid : Document} {a b : Block} (h : doc.place a = .ok mid)
    (h' : mid.place b = .ok doc') :
    ∃ mid', doc.place b = .ok mid' ∧ mid'.place a = .ok doc' := by
  rcases place_eq_ok.mp h with ⟨hfound, rfl⟩ | ⟨hnew, hadd⟩
  · refine ⟨doc', h', place_eq_ok.mpr (.inl ⟨?_, rfl⟩)⟩
    rcases place_eq_ok.mp h' with ⟨-, rfl⟩ | ⟨hb, haddb⟩
    · exact hfound
    · obtain ⟨-, -, rfl⟩ := add_eq_ok.mp haddb
      have hne : a.identity ≠ b.identity := fun heq => by rw [heq, hb] at hfound; cases hfound
      exact (SortedMap.find?_insert_of_ne _ _ hne).trans hfound
  · obtain ⟨hmonth, -, rfl⟩ := add_eq_ok.mp hadd
    by_cases hid : b.identity = a.identity
    · -- The second entry is the first one again.
      rcases place_eq_ok.mp h' with ⟨hfound, rfl⟩ | ⟨hb, -⟩
      · rw [hid, SortedMap.find?_insert_self] at hfound
        obtain rfl := Option.some.inj hfound
        exact ⟨_, h, h'⟩
      · rw [hid, SortedMap.find?_insert_self] at hb
        cases hb
    · rcases place_eq_ok.mp h' with ⟨hfound, rfl⟩ | ⟨hb, haddb⟩
      · rw [SortedMap.find?_insert_of_ne _ _ hid] at hfound
        exact ⟨doc, place_eq_ok.mpr (.inl ⟨hfound, rfl⟩), h⟩
      · obtain ⟨hmonthb, -, rfl⟩ := add_eq_ok.mp haddb
        rw [SortedMap.find?_insert_of_ne _ _ hid] at hb
        refine ⟨_, place_eq_ok.mpr (.inr ⟨hb, add_eq_ok.mpr ⟨hmonthb, hb, rfl⟩⟩),
          place_eq_ok.mpr (.inr ?_)⟩
        have hnone : (doc.entries.insert b.identity b).find? a.identity = none :=
          (SortedMap.find?_insert_of_ne _ _ (Ne.symm hid)).trans hnew
        refine ⟨hnone, add_eq_ok.mpr ⟨hmonth, hnone, ?_⟩⟩
        refine congrArg (fun entries => { doc with entries }) (SortedMap.ext_find? fun k => ?_)
        by_cases ha : k = a.identity
        · subst ha
          rw [SortedMap.find?_insert_self, SortedMap.find?_insert_of_ne _ _ (Ne.symm hid),
            SortedMap.find?_insert_self]
        · rw [SortedMap.find?_insert_of_ne _ _ ha]
          by_cases hb : k = b.identity
          · rw [hb, SortedMap.find?_insert_self, SortedMap.find?_insert_self]
          · rw [SortedMap.find?_insert_of_ne _ _ hb, SortedMap.find?_insert_of_ne _ _ hb,
              SortedMap.find?_insert_of_ne _ _ ha]

theorem placeAll_perm {entries' : List Block} (hperm : entries.Perm entries')
    (h : entries.foldlM Document.place doc = .ok doc') :
    entries'.foldlM Document.place doc = .ok doc' := by
  induction hperm generalizing doc with
  | nil => exact h
  | cons entry _ ih =>
    obtain ⟨mid, hplace, hrest⟩ := bind_eq_ok.mp h
    exact bind_eq_ok.mpr ⟨mid, hplace, ih hrest⟩
  | swap a b rest =>
    obtain ⟨mid, hb, hrest⟩ := bind_eq_ok.mp h
    obtain ⟨mid', ha, hrest⟩ := bind_eq_ok.mp hrest
    obtain ⟨mid'', ha', hb'⟩ := place_swap hb ha
    exact bind_eq_ok.mpr ⟨mid'', ha', bind_eq_ok.mpr ⟨mid', hb', hrest⟩⟩
  | trans _ _ ih ih' => exact ih' (ih h)

/-- Entries that were read may be placed in any order and again, and the month reads back with them. -/
theorem placed_in_any_order :
    (∀ (entries entries' : List Block) (doc doc' : Document), entries.Perm entries' →
      (entries.foldlM Document.place doc = .ok doc' ↔ entries'.foldlM Document.place doc = .ok doc')) ∧
    ∀ (contents : Text) (doc doc' : Document) (entries : List Block), Document.parse contents = .ok doc →
      (∀ e ∈ entries, ∃ text es, blocks text = .ok es ∧ e ∈ es) →
      entries.foldlM Document.place doc = .ok doc' →
      Document.parse doc'.render = .ok doc' ∧ entries.foldlM Document.place doc' = .ok doc' := by
  refine ⟨fun entries entries' doc doc' hperm => ⟨placeAll_perm hperm, placeAll_perm hperm.symm⟩, ?_⟩
  intro contents doc doc' entries hparse hread hplaced
  have hvalid (e : Block) (he : e ∈ entries) : e.Valid := by
    obtain ⟨text, es, hblocks, hmem⟩ := hread e he
    exact valid_of_blocks hblocks hmem
  exact ⟨parse_render (placeAll_valid (valid_of_parse hparse) hvalid hplaced),
    placeAll_again (placeAll_ok hplaced).2.2.1⟩

/-! ## Month by month -/

/-- The entries of a month. -/
def monthEntries (month : Month) (entries : List Block) : List Block :=
  entries.filter fun e => e.date.month = month

theorem foldEntry_ok (h : foldEntry log documents entry = .ok documents') :
    ∃ before after, soFar log documents entry.date.month = .ok before ∧ before.place entry = .ok after ∧
      documents' = documents.insert entry.date.month after := by
  unfold foldEntry at h
  simp only at h
  split at h
  next => cases h
  next before hsoFar =>
    split at h
    next => cases h
    next after hplace => exact ⟨before, after, hsoFar, hplace, (Except.ok.inj h).symm⟩

/-- The loop over the selected entries, month by month. -/
theorem foldEntries_ok (h : entries.foldlM (foldEntry log) documents = .ok documents') (month : Month) :
    (monthEntries month entries = [] ∧ documents'.find? month = documents.find? month) ∨
    (monthEntries month entries ≠ [] ∧ ∃ before after, soFar log documents month = .ok before ∧
      (monthEntries month entries).foldlM Document.place before = .ok after ∧
      documents'.find? month = some after) := by
  induction entries generalizing documents with
  | nil =>
    cases h
    exact .inl ⟨rfl, rfl⟩
  | cons entry entries ih =>
    rw [List.foldlM_cons] at h
    obtain ⟨mid, hentry, hrest⟩ := bind_eq_ok.mp h
    obtain ⟨before, after, hsoFar, hplace, rfl⟩ := foldEntry_ok hentry
    by_cases hmonth : entry.date.month = month
    · have hcons : monthEntries month (entry :: entries) = entry :: monthEntries month entries := by
        rw [monthEntries, List.filter_cons, if_pos (decide_eq_true hmonth)]
        rfl
      subst hmonth
      rw [hcons]
      refine .inr ⟨List.cons_ne_nil _ _, before, ?_⟩
      rcases ih hrest with ⟨hnil, hfind⟩ | ⟨-, before', after', hsoFar', hplaceAll, hfind⟩
      · rw [SortedMap.find?_insert_self] at hfind
        refine ⟨after, hsoFar, ?_, hfind⟩
        rw [hnil, List.foldlM_cons, hplace]
        rfl
      · rw [soFar, SortedMap.find?_insert_self] at hsoFar'
        obtain rfl := Except.ok.inj hsoFar'
        refine ⟨after', hsoFar, ?_, hfind⟩
        rw [List.foldlM_cons, hplace]
        exact hplaceAll
    · have hcons : monthEntries month (entry :: entries) = monthEntries month entries := by
        rw [monthEntries, List.filter_cons, if_neg (by simpa using hmonth)]
        rfl
      have hother : (documents.insert entry.date.month after).find? month = documents.find? month :=
        SortedMap.find?_insert_of_ne _ _ (Ne.symm hmonth)
      have hsoFar' : soFar log (documents.insert entry.date.month after) month =
          soFar log documents month := by
        rw [soFar, hother, soFar]
      rw [hcons, ← hother, ← hsoFar']
      exact ih hrest

theorem load_ok {row : Text × Text} {f : Fragment} (h : load row = .ok f) :
    f.name = row.1 ∧ blocks row.2 = .ok [f.entry] ∧ f.entry.Valid := by
  unfold load at h
  simp only at h
  split at h
  next => cases h
  next =>
    split at h
    next => cases h
    next =>
      split at h
      next => cases h
      next =>
        split at h
        next =>
          split at h
          next => cases h
          next hblocks =>
            split at h
            next =>
              split at h
              next =>
                split at h
                next =>
                  cases h
                  exact ⟨rfl, hblocks, valid_of_blocks hblocks List.mem_cons_self⟩
                next => cases h
              next => cases h
            next => cases h
          next => cases h
        next => cases h

theorem load_filter {rows : List (Text × Text)} {fragments : List Fragment}
    (h : rows.mapM load = .ok fragments) (p : Text → Bool) :
    (rows.filter fun row => p row.1).mapM load = .ok (fragments.filter fun f => p f.name) := by
  induction rows generalizing fragments with
  | nil =>
    cases h
    rfl
  | cons row rows ih =>
    rw [List.mapM_cons] at h
    obtain ⟨f, hf, h⟩ := bind_eq_ok.mp h
    obtain ⟨rest, hrest, h⟩ := bind_eq_ok.mp h
    cases h
    rw [List.filter_cons, List.filter_cons, (load_ok hf).1]
    split
    · rw [List.mapM_cons, hf, ih hrest]
      rfl
    · exact ih hrest

/-! ## The plan of a fold -/

variable {today : EntryDate} {steps : List Op}

structure Plan (log : Log) (today : EntryDate) where
  index : Text
  fragments : List Fragment
  documents : SortedMap Month Document
  hasIndex : log.index = some index
  loaded : log.pending.rows.mapM load = .ok fragments
  folded : ((fragments.filter fun f => f.entry.date < today).map (·.entry)).foldlM (foldEntry log) .empty =
    .ok documents
  selects : fragments.filter (fun f => f.entry.date < today) ≠ []

namespace Plan

variable (p : Plan log today)

def selected : List Fragment := p.fragments.filter fun f => f.entry.date < today

def later : List Fragment := p.fragments.filter fun f => decide (today ≤ f.entry.date)

def months : List Month := sortDedup (log.months.keys ++ p.documents.keys)

/-- The index after the fold. -/
def updated : Text := renderIndex p.index p.months (renderPending (p.later.map Fragment.listed))

def ops : List Op :=
  p.documents.rows.map (fun row => .writeMonth row.1 row.2.render) ++
    (if p.updated = p.index then [] else [.writeIndex p.updated]) ++
    p.selected.map fun f => .remove f.name

end Plan

/-- A fold does nothing, or what its plan says. -/
theorem fold_ok (h : fold log today = .ok steps) : (steps = [] ∧ ∃ fragments,
      log.pending.rows.mapM load = .ok fragments ∧
      fragments.filter (fun f => f.entry.date < today) = []) ∨
    ∃ p : Plan log today, steps = p.ops := by
  unfold fold at h
  split at h
  next => cases h
  next index hindex =>
    split at h
    next => cases h
    next =>
      obtain ⟨fragments, hloaded, h⟩ := bind_eq_ok.mp h
      simp only at h
      split at h
      next hnone =>
        cases h
        exact .inl ⟨rfl, fragments, hloaded, hnone⟩
      next hselects =>
        obtain ⟨documents, hfolded, h⟩ := bind_eq_ok.mp h
        cases h
        exact .inr ⟨⟨index, fragments, documents, hindex, hloaded, hfolded, hselects⟩, rfl⟩

theorem monthDocument_valid {month : Month} (h : monthDocument log month = .ok doc) :
    doc.Valid ∧ doc.month = month := by
  unfold monthDocument at h
  split at h
  next =>
    cases h
    exact ⟨valid_empty month, rfl⟩
  next =>
    split at h
    next => cases h
    next hparse =>
      split at h
      next => cases h
      next hmonth =>
        cases h
        exact ⟨valid_of_parse hparse, not_not.mp hmonth⟩

namespace Plan

variable (p : Plan log today)

theorem fragment_valid {f : Fragment} (h : f ∈ p.fragments) : f.entry.Valid := by
  obtain ⟨row, -, hload⟩ := mem_of_mapM_eq_ok p.loaded h
  exact (load_ok hload).2.2

theorem monthEntry_mem {month : Month} {e : Block}
    (h : e ∈ monthEntries month (p.selected.map (·.entry))) :
    ∃ f ∈ p.selected, f.entry = e ∧ e.date.month = month := by
  rw [monthEntries, List.mem_filter, List.mem_map] at h
  obtain ⟨⟨f, hf, rfl⟩, hmonth⟩ := h
  exact ⟨f, hf, rfl, of_decide_eq_true hmonth⟩

/-- The document that is written for a month. -/
theorem document {month : Month} {doc : Document} (h : p.documents.find? month = some doc) :
    ∃ before, monthDocument log month = .ok before ∧
      (monthEntries month (p.selected.map (·.entry))).foldlM Document.place before = .ok doc ∧
      monthEntries month (p.selected.map (·.entry)) ≠ [] ∧ doc.Valid ∧ doc.month = month := by
  rcases foldEntries_ok p.folded month with ⟨-, hnone⟩ | ⟨hne, before, after, hsoFar, hplace, hfind⟩
  · rw [h] at hnone
    cases hnone
  · rw [h] at hfind
    obtain rfl := Option.some.inj hfind
    have hbefore : monthDocument log month = .ok before := hsoFar
    obtain ⟨hvalid, hmonth⟩ := monthDocument_valid hbefore
    refine ⟨before, hbefore, hplace, hne, placeAll_valid hvalid (fun e he => ?_) hplace,
      (placeAll_ok hplace).1.trans hmonth⟩
    obtain ⟨f, hf, rfl, -⟩ := p.monthEntry_mem he
    exact p.fragment_valid (List.mem_of_mem_filter hf)

theorem document_of_selected {f : Fragment} (h : f ∈ p.selected) :
    ∃ doc, p.documents.find? f.entry.date.month = some doc ∧
      doc.entries.find? f.entry.identity = some f.entry := by
  have hmem : f.entry ∈ monthEntries f.entry.date.month (p.selected.map (·.entry)) :=
    List.mem_filter.mpr ⟨List.mem_map_of_mem h, decide_eq_true rfl⟩
  rcases foldEntries_ok p.folded f.entry.date.month with
    ⟨hnil, -⟩ | ⟨-, before, after, -, hplace, hfind⟩
  · change monthEntries _ (p.selected.map (·.entry)) = [] at hnil
    rw [hnil] at hmem
    exact absurd hmem List.not_mem_nil
  · exact ⟨after, hfind, (placeAll_ok hplace).2.2.1 _ hmem⟩

end Plan

end NilsCli.Devlog
