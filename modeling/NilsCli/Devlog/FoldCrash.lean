import NilsCli.Devlog.Fold

/-!
# A fold that is called again

A log is `Between` when some of the writes and removals of a fold have been made.
-/

namespace NilsCli.Devlog

open Lib

variable {start log next : Log} {today : EntryDate} {steps : List Op} (p : Plan start today)

/-! ## Running -/

theorem run_append (log : Log) (a b : List Op) : log.run (a ++ b) = (log.run a).run b :=
  List.foldl_append

theorem run_writes (log : Log) (rows : List (Month × Document)) (hnodup : (rows.map (·.1)).Nodup) :
    (∀ row ∈ rows, (log.run (rows.map fun row => .writeMonth row.1 row.2.render)).months.find? row.1 =
      some row.2.render) ∧
    (∀ m, m ∉ rows.map (·.1) → (log.run (rows.map fun row => .writeMonth row.1 row.2.render)).months.find? m =
      log.months.find? m) ∧
    (log.run (rows.map fun row => .writeMonth row.1 row.2.render)).index = log.index ∧
    (log.run (rows.map fun row => .writeMonth row.1 row.2.render)).pending = log.pending := by
  induction rows generalizing log with
  | nil => exact ⟨fun _ h => absurd h List.not_mem_nil, fun _ _ => rfl, rfl, rfl⟩
  | cons row rows ih =>
    rw [List.map_cons, List.nodup_cons] at hnodup
    obtain ⟨hwritten, hother, hindex, hpending⟩ :=
      ih { log with months := log.months.insert row.1 row.2.render } hnodup.2
    refine ⟨?_, fun m hm => ?_, hindex, hpending⟩
    · rintro row' (_ | ⟨_, hrow⟩)
      · exact (hother row.1 hnodup.1).trans (SortedMap.find?_insert_self _ _ _)
      · exact hwritten row' hrow
    · rw [List.map_cons, List.mem_cons, not_or] at hm
      exact (hother m hm.2).trans (SortedMap.find?_insert_of_ne _ _ hm.1)

theorem run_removes (log : Log) (names : List Text) :
    (log.run (names.map .remove)).months = log.months ∧ (log.run (names.map .remove)).index = log.index ∧
    (log.run (names.map .remove)).pending.rows = log.pending.rows.filter fun row => row.1 ∉ names := by
  induction names generalizing log with
  | nil =>
    refine ⟨rfl, rfl, ?_⟩
    simp [Log.run]
  | cons name names ih =>
    obtain ⟨hmonths, hindex, hrows⟩ := ih (log.apply (.remove name))
    refine ⟨hmonths, hindex, hrows.trans ?_⟩
    change (log.pending.rows.filter fun row => row.1 ≠ name).filter _ = _
    rw [List.filter_filter]
    refine List.filter_congr fun row _ => ?_
    simp [Bool.and_comm]

theorem mem_keys_isSome {κ ν : Type} [LinearOrder κ] {m : SortedMap κ ν} {k : κ} :
    k ∈ m.keys ↔ (m.find? k).isSome := by
  rw [SortedMap.mem_keys_iff, Option.isSome_iff_exists]

/-! ## Between -/

/-- Every month of the plan has been written. -/
def Written (log : Log) : Prop :=
  ∀ {m doc}, p.documents.find? m = some doc → log.months.find? m = some doc.render

structure Between (log : Log) : Prop where
  months : ∀ m, log.months.find? m = start.months.find? m ∨
    ∃ doc, p.documents.find? m = some doc ∧ log.months.find? m = some doc.render
  phase : (log.index = some p.index ∧ log.pending.rows = start.pending.rows) ∨
    (Written p log ∧ log.index = some p.updated ∧ ∃ gone : List Text,
      (∀ name ∈ gone, name ∈ p.selected.map (·.name)) ∧
      log.pending.rows = start.pending.rows.filter fun row => row.1 ∉ gone)

/-- All of them have been made. -/
structure Done (log : Log) : Prop where
  written : Written p log
  others : ∀ {m}, p.documents.find? m = none → log.months.find? m = start.months.find? m
  index : log.index = some p.updated
  pending : log.pending.rows = start.pending.rows.filter fun row => row.1 ∉ p.selected.map (·.name)

theorem between_start : Between p start := ⟨fun _ => .inl rfl, .inl ⟨p.hasIndex, rfl⟩⟩

theorem Done.eq {log' : Log} (h : Done p log) (h' : Done p log') : log = log' := by
  obtain ⟨index, months, pending⟩ := log
  obtain ⟨index', months', pending'⟩ := log'
  have hindex : index = index' := h.index.trans h'.index.symm
  have hmonths : months = months' := by
    refine SortedMap.ext_find? fun m => ?_
    cases hdoc : p.documents.find? m with
    | none => exact (h.others hdoc).trans (h'.others hdoc).symm
    | some doc => exact (h.written hdoc).trans (h'.written hdoc).symm
  have hpending : pending = pending' := SortedMap.ext_rows (h.pending.trans h'.pending.symm)
  rw [hindex, hmonths, hpending]

theorem Between.done {p : Plan start today} (h : Between p log) (hwritten : Written p log)
    (hindex : log.index = some p.updated)
    (hpending : log.pending.rows = start.pending.rows.filter fun row => row.1 ∉ p.selected.map (·.name)) :
    Done p log := by
  refine ⟨hwritten, fun {m} hm => ?_, hindex, hpending⟩
  rcases h.months m with hsame | ⟨doc, hdoc, -⟩
  · exact hsame
  · rw [hm] at hdoc
    cases hdoc

/-! ## The plan of a retry -/

theorem fragment_ext {f g : Fragment} (hf : f ∈ p.fragments) (hg : g ∈ p.fragments)
    (hname : f.name = g.name) : f = g := by
  obtain ⟨row, hrow, hload⟩ := mem_of_mapM_eq_ok p.loaded hf
  obtain ⟨row', hrow', hload'⟩ := mem_of_mapM_eq_ok p.loaded hg
  have hkey : row.1 = row'.1 := ((load_ok hload).1.symm.trans hname).trans (load_ok hload').1
  have hfind : start.pending.find? row.1 = some row.2 := SortedMap.find?_eq_some_iff.mpr hrow
  have hfind' : start.pending.find? row'.1 = some row'.2 := SortedMap.find?_eq_some_iff.mpr hrow'
  rw [hkey, hfind'] at hfind
  have hsame : row = row' := Prod.ext hkey (Option.some.inj hfind).symm
  rw [hsame, hload'] at hload
  exact (Except.ok.inj hload).symm

theorem retry_fragments {p : Plan start today} (h : Between p log) {fragments : List Fragment}
    (hloaded : log.pending.rows.mapM load = .ok fragments) : ∃ gone : List Text,
      fragments = p.fragments.filter (fun f => f.name ∉ gone) ∧
      (∀ name ∈ gone, name ∈ p.selected.map (·.name)) ∧
      log.pending.rows = start.pending.rows.filter (fun row => row.1 ∉ gone) ∧
      ((log.index = some p.index ∧ gone = []) ∨ (Written p log ∧ log.index = some p.updated)) := by
  rcases h.phase with ⟨hindex, hpending⟩ | ⟨hwritten, hindex, gone, hgone, hpending⟩
  · refine ⟨[], ?_, fun _ h => absurd h List.not_mem_nil, by simpa using hpending, .inl ⟨hindex, rfl⟩⟩
    rw [hpending, p.loaded] at hloaded
    simpa using (Except.ok.inj hloaded).symm
  · refine ⟨gone, ?_, hgone, hpending, .inr ⟨hwritten, hindex⟩⟩
    have hfilter := load_filter p.loaded fun name => decide (name ∉ gone)
    rw [hpending, hfilter] at hloaded
    exact (Except.ok.inj hloaded).symm

theorem filter_later {p : Plan start today} {gone : List Text}
    (hgone : ∀ name ∈ gone, name ∈ p.selected.map (·.name)) :
    (p.fragments.filter (fun f => f.name ∉ gone)).filter (fun f => decide (today ≤ f.entry.date)) =
      p.later := by
  rw [Plan.later, List.filter_filter]
  refine List.filter_congr fun f hf => ?_
  by_cases hlater : today ≤ f.entry.date
  · have hnot : f.name ∉ gone := by
      intro hmem
      obtain ⟨g, hg, hname⟩ := List.mem_map.mp (hgone _ hmem)
      obtain ⟨hgmem, hdate⟩ := List.mem_filter.mp hg
      rw [fragment_ext p hgmem hf hname] at hdate
      exact absurd hlater (not_le.mpr (of_decide_eq_true hdate))
    simp [hlater, hnot]
  · simp [hlater]

section Retry

variable {p : Plan start today}

theorem retry_selected (h : Between p log) (q : Plan log today) {f : Fragment}
    (hf : f ∈ q.selected) : f ∈ p.selected := by
  obtain ⟨gone, hfragments, -⟩ := retry_fragments h q.loaded
  obtain ⟨hmem, hdate⟩ := List.mem_filter.mp hf
  rw [hfragments] at hmem
  exact List.mem_filter.mpr ⟨List.mem_of_mem_filter hmem, hdate⟩

theorem retry_later (h : Between p log) (q : Plan log today) : q.later = p.later := by
  obtain ⟨gone, hfragments, hgone, -⟩ := retry_fragments h q.loaded
  rw [Plan.later, hfragments]
  exact filter_later hgone

/-- A month that has been written parses to its document. -/
theorem written_document {m : Month} {doc : Document} (hdoc : p.documents.find? m = some doc)
    (hwritten : log.months.find? m = some doc.render) : monthDocument log m = .ok doc := by
  obtain ⟨-, -, -, -, hvalid, hmonth⟩ := p.document hdoc
  unfold monthDocument
  rw [hwritten]
  simp only [parse_render hvalid]
  rw [if_neg (not_not.mpr hmonth)]

theorem retry_document (h : Between p log) (q : Plan log today) {m : Month} {doc : Document}
    (hdoc : q.documents.find? m = some doc) :
    p.documents.find? m = some doc := by
  obtain ⟨before, hbefore, hplace, hne, -, -⟩ := q.document hdoc
  obtain ⟨e, rest, hentries⟩ := List.exists_cons_of_ne_nil hne
  have hmem : e ∈ monthEntries m (q.selected.map (·.entry)) := by
    rw [hentries]
    exact List.mem_cons_self
  obtain ⟨f, hf, rfl, hm⟩ := q.monthEntry_mem hmem
  obtain ⟨target, htarget, -⟩ := p.document_of_selected (retry_selected h q hf)
  rw [hm] at htarget
  have hthere : ∀ e ∈ monthEntries m (q.selected.map (·.entry)),
      target.entries.find? e.identity = some e := by
    intro e he
    obtain ⟨g, hg, rfl, hmonth⟩ := q.monthEntry_mem he
    obtain ⟨doc', hdoc', hfind⟩ := p.document_of_selected (retry_selected h q hg)
    rw [hmonth, htarget] at hdoc'
    obtain rfl := Option.some.inj hdoc'
    exact hfind
  have hrendered : log.months.find? m = some target.render → doc = target := by
    intro hwritten
    rw [written_document htarget hwritten] at hbefore
    obtain rfl := Except.ok.inj hbefore
    rw [placeAll_again hthere] at hplace
    exact (Except.ok.inj hplace).symm
  rw [htarget]
  congr 1
  rcases h.months m with hsame | ⟨target', htarget', hwritten⟩
  · obtain ⟨gone, hfragments, -, -, ⟨-, rfl⟩ | ⟨hwritten, -⟩⟩ := retry_fragments h q.loaded
    · -- nothing has been removed yet: the same entries go into the same document
      obtain ⟨before', hbefore', hplace', -⟩ := p.document htarget
      have hsameDocument : monthDocument log m = monthDocument start m := by
        rw [monthDocument, hsame, monthDocument]
      have hselected : q.selected = p.selected := by
        rw [Plan.selected, hfragments, Plan.selected]
        simp
      rw [hsameDocument, hbefore'] at hbefore
      obtain rfl := Except.ok.inj hbefore
      rw [hselected, hplace'] at hplace
      exact Except.ok.inj hplace
    · exact (hrendered (hwritten htarget)).symm
  · rw [htarget] at htarget'
    obtain rfl := Option.some.inj htarget'
    exact (hrendered hwritten).symm

theorem retry_writes (h : Between p log) (q : Plan log today) {m : Month} {doc : Document}
    (hdoc : p.documents.find? m = some doc) :
    q.documents.find? m = some doc ∨ (Written p log ∧ log.index = some p.updated) := by
  obtain ⟨gone, hfragments, -, -, ⟨-, rfl⟩ | hwritten⟩ := retry_fragments h q.loaded
  · refine .inl ?_
    have hselected : q.selected = p.selected := by
      rw [Plan.selected, hfragments, Plan.selected]
      simp
    obtain ⟨-, -, -, hne, -, -⟩ := p.document hdoc
    rcases foldEntries_ok q.folded m with ⟨hnil, -⟩ | ⟨-, -, after, -, -, hfind⟩
    · change monthEntries m (q.selected.map (·.entry)) = [] at hnil
      rw [hselected] at hnil
      exact absurd hnil hne
    · have hsame := retry_document h q hfind
      rw [hdoc] at hsame
      rw [hfind, ← hsame]
  · exact .inr hwritten

theorem retry_months (h : Between p log) (q : Plan log today) : q.months = p.months := by
  refine eq_of_mem_iff (sortDedup_sorted _) (sortDedup_sorted _) fun m => ?_
  rw [Plan.months, Plan.months]
  simp only [mem_sortDedup, List.mem_append, mem_keys_isSome]
  constructor
  · rintro (hm | hm)
    · rcases h.months m with hsame | ⟨doc, hdoc, -⟩
      · exact .inl (hsame ▸ hm)
      · exact .inr (by rw [hdoc]; rfl)
    · obtain ⟨doc, hdoc⟩ := Option.isSome_iff_exists.mp hm
      exact .inr (by rw [retry_document h q hdoc]; rfl)
  · rintro (hm | hm)
    · rcases h.months m with hsame | ⟨doc, -, hwritten⟩
      · exact .inl (hsame ▸ hm)
      · exact .inl (by rw [hwritten]; rfl)
    · obtain ⟨doc, hdoc⟩ := Option.isSome_iff_exists.mp hm
      rcases retry_writes h q hdoc with hfind | ⟨hwritten, -⟩
      · exact .inr (by rw [hfind]; rfl)
      · exact .inl (by rw [hwritten hdoc]; rfl)

theorem retry_updated (h : Between p log) (q : Plan log today) (hidem : renderIndex p.updated p.months
    (renderPending (p.later.map Fragment.listed)) = p.updated) : q.updated = p.updated := by
  rw [Plan.updated, retry_months h q, retry_later h q]
  have hq := q.hasIndex
  obtain ⟨gone, -, -, -, ⟨hindex, -⟩ | ⟨-, hindex⟩⟩ := retry_fragments h q.loaded
  · rw [hindex] at hq
    rw [← Option.some.inj hq]
    rfl
  · rw [hindex] at hq
    rw [← Option.some.inj hq, hidem]

end Retry

/-! ## Calls -/

/-- Writing months of the plan keeps a log between. -/
theorem between_writes {p : Plan start today} (h : Between p log) {rows : List (Month × Document)}
    (hnodup : (rows.map (·.1)).Nodup) (hrows : ∀ row ∈ rows, p.documents.find? row.1 = some row.2) :
    Between p (log.run (rows.map fun row => .writeMonth row.1 row.2.render)) := by
  obtain ⟨hwritten, hother, hindex, hpending⟩ := run_writes log rows hnodup
  have hmonth : ∀ m, (∃ doc, p.documents.find? m = some doc ∧
      (log.run (rows.map fun row => .writeMonth row.1 row.2.render)).months.find? m = some doc.render) ∨
      (log.run (rows.map fun row => .writeMonth row.1 row.2.render)).months.find? m = log.months.find? m := by
    intro m
    by_cases hm : m ∈ rows.map (·.1)
    · obtain ⟨row, hrow, rfl⟩ := List.mem_map.mp hm
      exact .inl ⟨row.2, hrows row hrow, hwritten row hrow⟩
    · exact .inr (hother m hm)
  refine ⟨fun m => ?_, ?_⟩
  · rcases hmonth m with hnew | hsame
    · exact .inr hnew
    · rw [hsame]
      exact h.months m
  · rw [hindex, hpending]
    rcases h.phase with hfirst | ⟨hall, hrest⟩
    · exact .inl hfirst
    · refine .inr ⟨fun {m doc} hdoc => ?_, hrest⟩
      rcases hmonth m with ⟨doc', hdoc', hnew⟩ | hsame
      · rw [hdoc] at hdoc'
        obtain rfl := Option.some.inj hdoc'
        exact hnew
      · rw [hsame]
        exact hall hdoc

/-- The writes and removals of a plan. -/
def Plan.writes (q : Plan log today) : List Op :=
  q.documents.rows.map fun row => .writeMonth row.1 row.2.render

def Plan.indexWrite (q : Plan log today) : List Op :=
  if q.updated = q.index then [] else [.writeIndex q.updated]

def Plan.removes (q : Plan log today) : List Op := (q.selected.map (·.name)).map .remove

theorem Plan.ops_eq (q : Plan log today) : q.ops = q.writes ++ (q.indexWrite ++ q.removes) := by
  rw [Plan.ops, List.append_assoc, Plan.removes, List.map_map]
  rfl

theorem retry_rows {p : Plan start today} (h : Between p log) (q : Plan log today) :
    ∀ row ∈ q.documents.rows, p.documents.find? row.1 = some row.2 :=
  fun _ hrow => retry_document h q (SortedMap.find?_eq_some_iff.mpr hrow)

theorem retry_written {p : Plan start today} (h : Between p log) (q : Plan log today) :
    Between p (log.run q.writes) ∧ Written p (log.run q.writes) ∧
      (log.run q.writes).index = log.index ∧ (log.run q.writes).pending = log.pending := by
  obtain ⟨hwritten, hother, hindex, hpending⟩ :=
    run_writes log q.documents.rows q.documents.keys_nodup
  refine ⟨between_writes h q.documents.keys_nodup (retry_rows h q), fun {m doc} hdoc => ?_, hindex,
    hpending⟩
  by_cases hm : m ∈ q.documents.rows.map (·.1)
  · obtain ⟨row, hrow, rfl⟩ := List.mem_map.mp hm
    have hsame := retry_rows h q row hrow
    rw [hdoc] at hsame
    rw [Option.some.inj hsame]
    exact hwritten row hrow
  · refine (hother m hm).trans ?_
    rcases retry_writes h q hdoc with hfind | ⟨hall, -⟩
    · exact absurd (List.mem_map.mpr ⟨_, SortedMap.find?_eq_some_iff.mp hfind, rfl⟩) hm
    · exact hall hdoc

theorem run_indexWrite (log' : Log) (q : Plan log today) :
    (log'.run q.indexWrite).months = log'.months ∧ (log'.run q.indexWrite).pending = log'.pending ∧
      (log'.index = some q.index → (log'.run q.indexWrite).index = some q.updated) := by
  unfold Plan.indexWrite
  split
  next hsame => exact ⟨rfl, rfl, fun h => hsame ▸ h⟩
  next => exact ⟨rfl, rfl, fun _ => rfl⟩

theorem retry_removed {p : Plan start today} (h : Between p log) (q : Plan log today)
    (hupdated : q.updated = p.updated) {names : List Text}
    (hnames : ∀ name ∈ names, name ∈ q.selected.map (·.name)) :
    Between p (((log.run q.writes).run q.indexWrite).run (names.map .remove)) ∧
      (names = q.selected.map (·.name) →
        Done p (((log.run q.writes).run q.indexWrite).run (names.map .remove))) := by
  obtain ⟨hbetween, hwritten, hindex, hpending⟩ := retry_written h q
  obtain ⟨hmonths, hpending', hindex'⟩ := run_indexWrite (log.run q.writes) q
  obtain ⟨hmonths'', hindex'', hrows⟩ := run_removes ((log.run q.writes).run q.indexWrite) names
  obtain ⟨gone, hfragments, hgone, hlogRows, -⟩ := retry_fragments h q.loaded
  have hlast : (((log.run q.writes).run q.indexWrite).run (names.map .remove)).index = some p.updated := by
    rw [hindex'', hindex' (hindex.trans q.hasIndex), hupdated]
  have hall : Written p (((log.run q.writes).run q.indexWrite).run (names.map .remove)) := by
    intro m doc hdoc
    rw [hmonths'', hmonths]
    exact hwritten hdoc
  have hrows' : (((log.run q.writes).run q.indexWrite).run (names.map .remove)).pending.rows =
      start.pending.rows.filter fun row => row.1 ∉ gone ++ names := by
    rw [hrows, hpending', hpending, hlogRows, List.filter_filter]
    refine List.filter_congr fun row _ => ?_
    simp [Bool.and_comm]
  have hgoneAll : ∀ name ∈ gone ++ names, name ∈ p.selected.map (·.name) := by
    intro name hname
    rcases List.mem_append.mp hname with hname | hname
    · exact hgone name hname
    · obtain ⟨f, hf, rfl⟩ := List.mem_map.mp (hnames name hname)
      exact List.mem_map_of_mem (retry_selected h q hf)
  have hafter : Between p (((log.run q.writes).run q.indexWrite).run (names.map .remove)) := by
    refine ⟨fun m => ?_, .inr ⟨hall, hlast, gone ++ names, hgoneAll, hrows'⟩⟩
    rw [hmonths'', hmonths]
    exact hbetween.months m
  refine ⟨hafter, fun hnamesAll => hafter.done hall hlast (hrows'.trans ?_)⟩
  refine List.filter_congr fun row _ => ?_
  refine decide_eq_decide.mpr (not_congr ⟨hgoneAll _, fun hmem => ?_⟩)
  by_cases hgoneRow : row.1 ∈ gone
  · exact List.mem_append_left _ hgoneRow
  · obtain ⟨f, hf, hname⟩ := List.mem_map.mp hmem
    obtain ⟨hfmem, hdate⟩ := List.mem_filter.mp hf
    refine List.mem_append_right _ ?_
    rw [hnamesAll]
    refine List.mem_map.mpr ⟨f, List.mem_filter.mpr ⟨?_, hdate⟩, hname⟩
    rw [hfragments, List.mem_filter, decide_eq_true_iff, hname]
    exact ⟨hfmem, hgoneRow⟩

/-- A call keeps a log between, wherever it stops. -/
theorem between_prefix {p : Plan start today} (h : Between p log) (q : Plan log today)
    (hupdated : q.updated = p.updated) (n : Nat) : Between p (log.run (q.ops.take n)) := by
  have hwrites : ∀ k, Between p (log.run (q.writes.take k)) := by
    intro k
    rw [Plan.writes, ← List.map_take]
    refine between_writes h ?_ fun row hrow => retry_rows h q row (List.mem_of_mem_take hrow)
    rw [List.map_take]
    exact q.documents.keys_nodup.sublist (List.take_sublist _ _)
  rw [q.ops_eq, List.take_append, List.take_append]
  by_cases hn : n < q.writes.length
  · have hzero : n - q.writes.length = 0 := by omega
    rw [hzero, Nat.zero_sub, List.take_zero, List.take_zero, List.append_nil, List.append_nil]
    exact hwrites n
  · rw [List.take_of_length_le (by omega : q.writes.length ≤ n)]
    by_cases hindex : n - q.writes.length < q.indexWrite.length
    · have hlen : q.indexWrite.length ≤ 1 := by
        unfold Plan.indexWrite
        split
        · exact Nat.zero_le 1
        · exact le_refl 1
      have hzero : n - q.writes.length = 0 := by omega
      rw [hzero, Nat.zero_sub, List.take_zero, List.take_zero, List.append_nil, List.append_nil]
      exact (retry_written h q).1
    · rw [List.take_of_length_le (by omega : q.indexWrite.length ≤ n - q.writes.length), run_append,
        run_append, Plan.removes, ← List.map_take]
      exact (retry_removed h q hupdated fun name hname => List.mem_of_mem_take hname).1

theorem done_of_plan {p : Plan start today} (h : Between p log) (q : Plan log today)
    (hupdated : q.updated = p.updated) : Done p (log.run q.ops) := by
  rw [q.ops_eq, run_append, run_append]
  exact (retry_removed h q hupdated fun _ hname => hname).2 rfl

theorem done_of_completed {p : Plan start today} (h : Between p log)
    (hidem : renderIndex p.updated p.months (renderPending (p.later.map Fragment.listed)) = p.updated)
    (hfold : fold log today = .ok steps) : Done p (log.run steps) := by
  rcases fold_ok hfold with ⟨rfl, fragments, hloaded, hnone⟩ | ⟨q, rfl⟩
  · obtain ⟨gone, rfl, hgone, hrows, hphase⟩ := retry_fragments h hloaded
    have hall : ∀ f ∈ p.selected, f.name ∈ gone := by
      intro f hf
      obtain ⟨hmem, hdate⟩ := List.mem_filter.mp hf
      by_contra hnot
      have hfilter : f ∈ (p.fragments.filter (fun f => f.name ∉ gone)).filter
          fun f => f.entry.date < today := by
        rw [List.mem_filter, List.mem_filter, decide_eq_true_iff]
        exact ⟨⟨hmem, hnot⟩, hdate⟩
      rw [hnone] at hfilter
      exact absurd hfilter List.not_mem_nil
    rcases hphase with ⟨-, rfl⟩ | ⟨hwritten, hindex⟩
    · refine absurd ?_ p.selects
      exact List.eq_nil_iff_forall_not_mem.mpr fun f hf => List.not_mem_nil (hall f hf)
    · refine h.done hwritten hindex (hrows.trans ?_)
      refine List.filter_congr fun row _ => decide_eq_decide.mpr (not_congr ⟨hgone _, fun hmem => ?_⟩)
      obtain ⟨f, hf, hname⟩ := List.mem_map.mp hmem
      exact hname ▸ hall f hf
  · exact done_of_plan h q (retry_updated h q hidem)

theorem between_call {p : Plan start today} (h : Between p log)
    (hidem : renderIndex p.updated p.months (renderPending (p.later.map Fragment.listed)) = p.updated)
    (hcall : FoldCall today log next) : Between p next := by
  cases hcall with
  | refused hfold => exact h
  | stopped hfold n =>
    rcases fold_ok hfold with ⟨rfl, -⟩ | ⟨q, rfl⟩
    · rw [List.take_nil]
      exact h
    · exact between_prefix h q (retry_updated h q hidem) n

theorem between_calls
    (hidem : renderIndex p.updated p.months (renderPending (p.later.map Fragment.listed)) = p.updated)
    (hcalls : FoldCalls today start log) : Between p log := by
  induction hcalls with
  | start => exact between_start p
  | call _ hcall ih => exact between_call ih hidem hcall

end NilsCli.Devlog

/-!
## Folds are crash safe

The main result on `fold`: at every moment of any number of interrupted calls nothing is lost
(`Safe`), and the call that completes leaves the files of one uninterrupted fold (`Folded`).
-/

namespace NilsCli.Devlog

open Lib

variable {start log next : Log} {today : EntryDate} {steps : List Op}

/-! ## Immutable paths -/

/-- A baseline fragment that is not accepted. -/
structure ImmutableProblem where
  kind : Text
  path : Text
  detail : Text

def isFolded (log : Log) (old : Text) : Bool :=
  match blocks old with
  | .ok [entry] =>
    match (log.months.find? entry.date.month).map Document.parse with
    | some (.ok doc) => doc.entries.find? entry.identity = some entry
    | _ => false
  | _ => false

def immutableProblem (log : Log) (changed : Option (List Text)) (row : Text × Text) :
    Option ImmutableProblem :=
  let found := log.pending.find? row.1
  if found = some row.2 ∧ changed.any (·.contains row.1) = false then none
  else if changed.isNone && found.isNone && isFolded log row.2 then none
  else some {
    kind := if found.isNone then "fragment-deleted".toList else "fragment-modified".toList
    path := row.1
    detail :=
      if changed.isSome then
        "merged fragments cannot change in a PR; only the trusted fold owner may delete them".toList
      else
        ("default-branch fragments are immutable; " ++
          "fold unchanged content before correcting the month entry").toList }

def checkImmutablePaths (log : Log) (baseline : List (Text × Text)) (changed : Option (List Text)) :
    List ImmutableProblem := baseline.filterMap (immutableProblem log changed)

/-! ## What holds at every moment -/

/-- The entry stands in the file of its month. -/
def InMonth (log : Log) (entry : Block) : Prop :=
  ∃ contents doc, log.months.find? entry.date.month = some contents ∧ Document.parse contents = .ok doc ∧
    doc.entries.find? entry.identity = some entry

structure Safe (start log : Log) : Prop where
  entries : ∀ {month contents doc}, start.months.find? month = some contents →
    Document.parse contents = .ok doc → ∃ contents' doc', log.months.find? month = some contents' ∧
      Document.parse contents' = .ok doc' ∧ doc'.preamble = doc.preamble ∧
      ∀ {id entry}, doc.entries.find? id = some entry → doc'.entries.find? id = some entry
  fragments : ∀ row ∈ start.pending.rows, row ∈ log.pending.rows ∨
    log.pending.find? row.1 = none ∧ ∃ f, load row = .ok f ∧ InMonth log f.entry
  accepted : checkImmutablePaths log start.pending.rows none = []

/-- What a completed fold leaves. -/
structure Folded (start log : Log) (today : EntryDate) : Prop where
  selected : ∀ row ∈ start.pending.rows, ∀ f, load row = .ok f → f.entry.date < today →
    log.pending.find? row.1 = none ∧ ∃ contents entries,
      log.months.find? f.entry.date.month = some contents ∧ blocks contents = .ok entries ∧
      entries.count f.entry = 1
  later : ∀ row ∈ start.pending.rows, ∀ f, load row = .ok f → today ≤ f.entry.date →
    row ∈ log.pending.rows ∧
    ((∃ other ∈ start.pending.rows, ∃ g, load other = .ok g ∧ g.entry.date < today) →
      ∃ index, log.index = some index ∧ f.listed.line ++ ['\n'] ∈ splitInclusive index)

theorem immutableProblem_of_present {row : Text × Text} (h : row ∈ log.pending.rows) :
    immutableProblem log none row = none := by
  have hfind : log.pending.find? row.1 = some row.2 := SortedMap.find?_eq_some_iff.mpr h
  unfold immutableProblem
  rw [if_pos ⟨hfind, rfl⟩]

theorem isFolded_of_inMonth {row : Text × Text} {f : Fragment} (hload : load row = .ok f)
    (h : InMonth log f.entry) : isFolded log row.2 = true := by
  obtain ⟨contents, doc, hfind, hparse, hentry⟩ := h
  unfold isFolded
  simp only [(load_ok hload).2.1, hfind, Option.map_some, hparse, hentry, decide_true]

theorem immutableProblem_of_folded {row : Text × Text} {f : Fragment} (hload : load row = .ok f)
    (hgone : log.pending.find? row.1 = none) (h : InMonth log f.entry) :
    immutableProblem log none row = none := by
  unfold immutableProblem
  simp only [hgone, isFolded_of_inMonth hload h]
  rfl

theorem safe_of_parts (hentries : ∀ {month contents doc}, start.months.find? month = some contents →
      Document.parse contents = .ok doc → ∃ contents' doc', log.months.find? month = some contents' ∧
        Document.parse contents' = .ok doc' ∧ doc'.preamble = doc.preamble ∧
        ∀ {id entry}, doc.entries.find? id = some entry → doc'.entries.find? id = some entry)
    (hfragments : ∀ row ∈ start.pending.rows, row ∈ log.pending.rows ∨
      log.pending.find? row.1 = none ∧ ∃ f, load row = .ok f ∧ InMonth log f.entry) : Safe start log := by
  refine ⟨hentries, hfragments, List.filterMap_eq_nil_iff.mpr fun row hrow => ?_⟩
  rcases hfragments row hrow with hpresent | ⟨hgone, f, hload, hmonth⟩
  · exact immutableProblem_of_present hpresent
  · exact immutableProblem_of_folded hload hgone hmonth

theorem safe_start (start : Log) : Safe start start :=
  safe_of_parts (fun hfind hparse => ⟨_, _, hfind, hparse, rfl, id⟩) fun _ hrow => .inl hrow

/-! ## Between -/

theorem fragment_of_row {rows : List (Text × Text)} {fragments : List Fragment}
    (hloaded : rows.mapM load = .ok fragments) {row : Text × Text} (hrow : row ∈ rows) :
    ∃ f ∈ fragments, load row = .ok f := by
  induction rows generalizing fragments with
  | nil => exact absurd hrow List.not_mem_nil
  | cons first rows ih =>
    rw [List.mapM_cons] at hloaded
    obtain ⟨f, hf, hloaded⟩ := bind_eq_ok.mp hloaded
    obtain ⟨rest, hrest, hloaded⟩ := bind_eq_ok.mp hloaded
    cases hloaded
    rcases List.mem_cons.mp hrow with rfl | hrow
    · exact ⟨f, List.mem_cons_self, hf⟩
    · obtain ⟨g, hg, hload⟩ := ih hrest hrow
      exact ⟨g, List.mem_cons_of_mem _ hg, hload⟩

theorem mem_fragments {rows : List (Text × Text)} {fragments : List Fragment}
    (hloaded : rows.mapM load = .ok fragments) {row : Text × Text} {f : Fragment} (hrow : row ∈ rows)
    (hload : load row = .ok f) : f ∈ fragments := by
  obtain ⟨g, hg, hload'⟩ := fragment_of_row hloaded hrow
  rw [hload] at hload'
  exact Except.ok.inj hload' ▸ hg

theorem inMonth_of_written {p : Plan start today} (h : Written p log) {f : Fragment} (hf : f ∈ p.selected) :
    InMonth log f.entry := by
  obtain ⟨doc, hdoc, hentry⟩ := p.document_of_selected hf
  obtain ⟨-, -, -, -, hvalid, -⟩ := p.document hdoc
  exact ⟨doc.render, doc, h hdoc, parse_render hvalid, hentry⟩

theorem Between.safe {p : Plan start today} (h : Between p log) : Safe start log := by
  refine safe_of_parts (fun {month contents doc} hfind hparse => ?_) fun row hrow => ?_
  · rcases h.months month with hsame | ⟨target, htarget, hwritten⟩
    · exact ⟨contents, doc, hsame.trans hfind, hparse, rfl, id⟩
    · obtain ⟨before, hbefore, hplace, -, hvalid, -⟩ := p.document htarget
      have hdoc : doc = before := by
        unfold monthDocument at hbefore
        rw [hfind] at hbefore
        simp only [hparse] at hbefore
        split at hbefore
        next => cases hbefore
        next => exact Except.ok.inj hbefore
      obtain ⟨-, hpreamble, -, hkeep, -⟩ := placeAll_ok hplace
      exact ⟨target.render, target, hwritten, parse_render hvalid, hdoc ▸ hpreamble, hdoc ▸ hkeep⟩
  · rcases h.phase with ⟨-, hpending⟩ | ⟨hwritten, -, gone, hgone, hpending⟩
    · exact .inl (hpending ▸ hrow)
    · by_cases hmem : row.1 ∈ gone
      · obtain ⟨f, hf, hname⟩ := List.mem_map.mp (hgone _ hmem)
        obtain ⟨g, hg, hload⟩ := fragment_of_row p.loaded hrow
        have hsame : f = g :=
          fragment_ext p (List.mem_of_mem_filter hf) hg (hname.trans (load_ok hload).1.symm)
        refine .inr ⟨SortedMap.find?_eq_none_iff.mpr fun hkey => ?_, g, hload,
          inMonth_of_written hwritten (hsame ▸ hf)⟩
        obtain ⟨row', hrow', heq⟩ := List.mem_map.mp hkey
        rw [hpending, List.mem_filter, heq] at hrow'
        exact absurd hmem (of_decide_eq_true hrow'.2)
      · refine .inl ?_
        rw [hpending, List.mem_filter]
        exact ⟨hrow, decide_eq_true hmem⟩

/-! ## A completed fold -/

/-- An entry of a parsed month stands there once. -/
theorem count_of_parse {contents : Text} {doc : Document} {entry : Block}
    (h : Document.parse contents = .ok doc) (hentry : doc.entries.find? entry.identity = some entry) :
    ∃ entries, blocks contents = .ok entries ∧ entries.count entry = 1 := by
  unfold Document.parse at h
  split at h
  next => cases h
  next =>
    obtain ⟨entries, hblocks, hadd⟩ := bind_eq_ok.mp h
    obtain ⟨-, hnodup, -, -, hfind⟩ := foldlM_add_eq_ok.mp hadd
    refine ⟨entries, hblocks, List.count_eq_one_of_mem hnodup.of_map ?_⟩
    rcases (hfind _ _).mp hentry with ⟨hmem, -⟩ | hempty
    · exact hmem
    · cases hempty

theorem mem_updated (p : Plan start today) {f : Fragment} (hf : f ∈ p.later) :
    f.listed.line ++ ['\n'] ∈ splitInclusive p.updated := by
  have hsorted : f.listed.line ∈ (sortBy PendingEntry.le (p.later.map Fragment.listed)).map
      PendingEntry.line :=
    List.mem_map_of_mem ((perm_sortBy _ _).mem_iff.mpr (List.mem_map_of_mem hf))
  have hlines : f.listed.line ∈ pendingLines (p.later.map Fragment.listed) := by
    rw [pendingLines, if_neg (List.ne_nil_of_mem hsorted)]
    exact List.mem_cons_of_mem _ (List.mem_cons_of_mem _ hsorted)
  have hbody : f.listed.line ++ ['\n'] ∈ bodyLines (pendingLines (p.later.map Fragment.listed)) := by
    rw [bodyLines, if_neg (List.ne_nil_of_mem hlines)]
    exact List.mem_map_of_mem hlines
  have hwrites : writesPending p.index (renderPending (p.later.map Fragment.listed)) = true := by
    rw [writesPending, decide_eq_true_iff]
    refine .inl fun hnil => ?_
    obtain ⟨line, lines, hcons⟩ := List.exists_cons_of_ne_nil (List.ne_nil_of_mem hsorted)
    obtain ⟨entry, -, hline⟩ := List.mem_map.mp (hcons ▸ List.mem_cons_self)
    obtain ⟨rest, hrest⟩ := entry.line_cons
    rw [renderPending, hcons, joinLines_cons, ← hline, hrest] at hnil
    cases hnil
  rw [Plan.updated, renderIndex, if_pos hwrites, pendingBody_eq]
  exact mem_replaceSection (by decide) (fun l hl => (pendingLines_quiet _ l hl).1) hbody

theorem Done.folded {p : Plan start today} (h : Done p log) : Folded start log today := by
  refine ⟨fun row hrow f hload hdate => ?_, fun row hrow f hload hdate => ⟨?_, fun _ => ?_⟩⟩
  · have hf : f ∈ p.selected :=
      List.mem_filter.mpr ⟨mem_fragments p.loaded hrow hload, decide_eq_true hdate⟩
    refine ⟨SortedMap.find?_eq_none_iff.mpr fun hkey => ?_, ?_⟩
    · obtain ⟨row', hrow', heq⟩ := List.mem_map.mp hkey
      rw [h.pending, List.mem_filter, heq] at hrow'
      refine absurd ?_ (of_decide_eq_true hrow'.2)
      exact List.mem_map.mpr ⟨f, hf, (load_ok hload).1⟩
    · obtain ⟨contents, doc, hfind, hparse, hentry⟩ := inMonth_of_written h.written hf
      obtain ⟨entries, hblocks, hcount⟩ := count_of_parse hparse hentry
      exact ⟨contents, entries, hfind, hblocks, hcount⟩
  · rw [h.pending, List.mem_filter, decide_eq_true_iff]
    refine ⟨hrow, fun hmem => ?_⟩
    obtain ⟨g, hg, hname⟩ := List.mem_map.mp hmem
    obtain ⟨hgmem, hgdate⟩ := List.mem_filter.mp hg
    rw [fragment_ext p hgmem (mem_fragments p.loaded hrow hload) (hname.trans (load_ok hload).1.symm)] at hgdate
    exact absurd hdate (not_le.mpr (of_decide_eq_true hgdate))
  · exact ⟨p.updated, h.index, mem_updated p
      (List.mem_filter.mpr ⟨mem_fragments p.loaded hrow hload, decide_eq_true hdate⟩)⟩

/-! ## The main result -/

def ReadyIndex (index : Text) : Prop :=
  CleanEnd index ∨ HasHeading index monthsHeading ∧ (HasHeading index pendingHeading ∨ MonthsLast index)

theorem Plan.months_ne_nil (p : Plan start today) : p.months ≠ [] := by
  intro hnil
  obtain ⟨f, rest, hselected⟩ := List.exists_cons_of_ne_nil p.selects
  have hf : f ∈ p.selected := by
    rw [Plan.selected, hselected]
    exact List.mem_cons_self
  obtain ⟨doc, hdoc, -⟩ := p.document_of_selected hf
  have hmem : f.entry.date.month ∈ p.months := by
    rw [Plan.months, mem_sortDedup, List.mem_append, mem_keys_isSome, mem_keys_isSome, hdoc]
    exact .inr rfl
  rw [hnil] at hmem
  exact absurd hmem List.not_mem_nil

/-- The index of a plan is not changed by a second run. -/
theorem Plan.again (p : Plan start today) (hready : ReadyIndex p.index) :
    renderIndex p.updated p.months (renderPending (p.later.map Fragment.listed)) = p.updated := by
  refine renderIndex_again ⟨?_, fun _ _ _ => p.months_ne_nil⟩
  rcases hready with hclean | ⟨hmonths, hrest⟩
  · exact fun _ => hclean
  · rintro (hno | ⟨-, hno, hlast⟩)
    · exact absurd hmonths hno
    · rcases hrest with hpending | hmonthsLast
      · exact absurd hpending hno
      · exact absurd hmonthsLast hlast

theorem calls_of_no_plan (hnone : Plan start today → False) (hcalls : FoldCalls today start log) :
    log = start := by
  induction hcalls with
  | start => rfl
  | call _ hcall ih =>
    subst ih
    cases hcall with
    | refused => rfl
    | stopped hfold n =>
      rcases fold_ok hfold with ⟨rfl, -⟩ | ⟨p, -⟩
      · rw [List.take_nil]
        rfl
      · exact (hnone p).elim

theorem fold_of_calls (hcalls : FoldCalls today start log) :
    log = start ∨ ∃ whole, fold start today = .ok whole := by
  induction hcalls with
  | start => exact .inl rfl
  | call _ hcall ih =>
    rcases ih with rfl | hwhole
    · cases hcall with
      | refused => exact .inl rfl
      | stopped hfold => exact .inr ⟨_, hfold⟩
    · exact .inr hwhole

/-- Where nothing is selected, the fragments stay. -/
theorem folded_of_none {fragments : List Fragment} (hloaded : start.pending.rows.mapM load = .ok fragments)
    (hnone : fragments.filter (fun f => f.entry.date < today) = []) : Folded start start today := by
  have hno : ∀ row ∈ start.pending.rows, ∀ f, load row = .ok f → ¬ f.entry.date < today := by
    intro row hrow f hload hdate
    have hmem : f ∈ fragments.filter fun f => f.entry.date < today :=
      List.mem_filter.mpr ⟨mem_fragments hloaded hrow hload, decide_eq_true hdate⟩
    rw [hnone] at hmem
    exact absurd hmem List.not_mem_nil
  refine ⟨fun row hrow f hload hdate => absurd hdate (hno row hrow f hload), ?_⟩
  rintro row hrow f - -
  refine ⟨hrow, ?_⟩
  rintro ⟨other, hother, g, hload, hdate⟩
  exact absurd hdate (hno other hother g hload)

/-- Interrupted folds lose nothing, and the one that completes leaves the files of an uninterrupted one. -/
theorem fold_crash_safe (hready : ∀ index, start.index = some index → ReadyIndex index)
    (hcalls : FoldCalls today start log) :
    Safe start log ∧
    (∀ error next, fold log today = .error error → FoldCall today log next → next = log) ∧
    ∀ steps, fold log today = .ok steps → Folded start (log.run steps) today ∧
      ∃ whole, fold start today = .ok whole ∧ log.run steps = start.run whole := by
  refine ⟨?_, fun error next herror hcall => ?_, fun steps hfold => ?_⟩
  · by_cases hplan : Nonempty (Plan start today)
    · obtain ⟨p⟩ := hplan
      exact (between_calls p (p.again (hready _ p.hasIndex)) hcalls).safe
    · rw [calls_of_no_plan (fun p => hplan ⟨p⟩) hcalls]
      exact safe_start start
  · cases hcall with
    | refused => rfl
    | stopped hfold =>
      rw [herror] at hfold
      cases hfold
  · obtain ⟨whole, hwhole⟩ : ∃ whole, fold start today = .ok whole := by
      rcases fold_of_calls hcalls with rfl | hwhole
      · exact ⟨steps, hfold⟩
      · exact hwhole
    rcases fold_ok hwhole with ⟨rfl, fragments, hloaded, hnone⟩ | ⟨p, rfl⟩
    · -- no plan selects nothing
      have hsame : log = start := by
        refine calls_of_no_plan (fun p => p.selects ?_) hcalls
        have hfragments := p.loaded
        rw [hloaded] at hfragments
        rw [← Except.ok.inj hfragments, hnone]
      subst hsame
      rw [hwhole] at hfold
      cases hfold
      exact ⟨folded_of_none hloaded hnone, [], hwhole, rfl⟩
    · have hagain := p.again (hready _ p.hasIndex)
      have hdone := done_of_completed (between_calls p hagain hcalls) hagain hfold
      exact ⟨hdone.folded, p.ops, hwhole, hdone.eq p (done_of_plan (between_start p) p rfl)⟩

/-- A fragment of the second of January. -/
def januaryRow : Text × Text :=
  ("2024-01-02-a.md".toList,
    ("## 2024-01-02 - A\n<!-- devlog-id: 2024-01-02-a -->\n\n### Result\n\n- x\n\n" ++
      "### Why / context\n\n- x\n\n### Evidence\n\n- x\n").toList)

def januaryLog : Log := ⟨some "## Months\n".toList, .empty, ⟨[januaryRow], List.pairwise_singleton _ _⟩⟩

theorem load_januaryRow : ∃ f, load januaryRow = .ok f ∧
    f.entry.date = ⟨januaryMonth, 2, by decide, by decide⟩ ∧
    f.listed.line = "- [2024-01-02-a](pending/2024-01-02-a.md)".toList := by
  have hsome : (load januaryRow).toOption.map (fun f => (f.entry.date, f.listed.line)) =
      some (⟨januaryMonth, 2, by decide, by decide⟩, "- [2024-01-02-a](pending/2024-01-02-a.md)".toList) := by
    decide +kernel
  cases hload : load januaryRow with
  | error error =>
    rw [hload] at hsome
    cases hsome
  | ok f =>
    rw [hload] at hsome
    obtain ⟨hdate, hline⟩ := Prod.mk.inj (Option.some.inj hsome)
    exact ⟨f, rfl, hdate, hline⟩

/-- A fold that selects nothing does not list the later fragments. -/
theorem fold_leaves_unlisted : ∃ f, load januaryRow = .ok f ∧ f.entry.date.day = 2 ∧
    fold januaryLog ⟨januaryMonth, 1, by decide, by decide⟩ = .ok [] ∧
    f.listed.line ++ ['\n'] ∉ splitInclusive "## Months\n".toList := by
  obtain ⟨f, hload, hdate, hline⟩ := load_januaryRow
  refine ⟨f, hload, by rw [hdate], ?_, by rw [hline]; decide⟩
  have hlength : (fold januaryLog ⟨januaryMonth, 1, by decide, by decide⟩).toOption.map List.length =
      some 0 := by
    decide +kernel
  cases hfold : fold januaryLog ⟨januaryMonth, 1, by decide, by decide⟩ with
  | error error =>
    rw [hfold] at hlength
    cases hlength
  | ok steps =>
    rw [hfold] at hlength
    rw [List.length_eq_zero_iff.mp (Option.some.inj hlength)]

/-- A fold that stopped after its first write has lost nothing. -/
theorem fold_crash_safe_january : ∃ steps,
    fold januaryLog ⟨januaryMonth, 3, by decide, by decide⟩ = .ok steps ∧ steps.length = 3 ∧
      Safe januaryLog (januaryLog.run (steps.take 1)) := by
  have hlength : (fold januaryLog ⟨januaryMonth, 3, by decide, by decide⟩).toOption.map List.length =
      some 3 := by
    decide +kernel
  cases hfold : fold januaryLog ⟨januaryMonth, 3, by decide, by decide⟩ with
  | error error =>
    rw [hfold] at hlength
    cases hlength
  | ok steps =>
    rw [hfold] at hlength
    refine ⟨steps, rfl, Option.some.inj hlength, (fold_crash_safe ?_ (.call .start (.stopped hfold 1))).1⟩
    rintro index ⟨⟩
    exact .inr ⟨⟨_, List.mem_cons_self, by decide⟩, .inr (by unfold MonthsLast; decide)⟩

end NilsCli.Devlog
