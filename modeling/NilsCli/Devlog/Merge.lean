import NilsCli.Devlog.RoundTrip

/-!
# The merge driver

A three-way merge of month files, by the identities of the entries.
-/

namespace NilsCli.Devlog

open Lib List

variable {id : Text} {a b old : Option Block} {e : Block} {pick : Text → Except Fault Block}
  {ids : List Text} {entries : List Block}

variable {base ours theirs merged : Document} {k : Text}

/-! ## Merging documents -/

def mergedPreamble (base ours theirs : Document) : Option Text :=
  if ours.preamble = theirs.preamble ∨ theirs.preamble = base.preamble then some ours.preamble
  else if ours.preamble = base.preamble then some theirs.preamble
  else none

/-- The entry that is kept under an identity. -/
def mergeEntry (id : Text) (ours theirs old : Option Block) : Except Fault Block :=
  match ours, theirs with
  | some a, some b =>
    if a = b ∨ some b = old then .ok a
    else if some a = old then .ok b
    else .error (.invalid ("both sides changed entry identity '".toList ++ id ++ "'".toList))
  | some a, none => .ok a
  | none, some b => .ok b
  | none, none => .error .panic

def mergeDocuments (base ours theirs : Document) : Except Fault Document :=
  if ours.month ≠ theirs.month ∨ ours.month ≠ base.month then
    .error (.invalid "merge inputs belong to different months".toList)
  else
    match mergedPreamble base ours theirs with
    | none => .error (.invalid "both sides changed the month preamble".toList)
    | some preamble =>
      (sortDedup (ours.entries.keys ++ theirs.entries.keys)).foldlM (fun merged id => do
        let entry ← mergeEntry id (ours.entries.find? id) (theirs.entries.find? id)
          (base.entries.find? id)
        merged.add entry) { Document.empty ours.month with preamble }

/-! ## Merging files -/

inductive Input where
  | base
  | ours
  | theirs
  deriving DecidableEq

/-- A refusal names the file it is about. -/
abbrev Refusal := Input × Fault

def readBase (month : Month) (text : Text) : Except Fault Document :=
  if trimmed text = [] then .ok (Document.empty month) else Document.parse text

/-- The text that `merge` writes over ours. -/
def mergeTexts (base ours theirs : Text) : Except Refusal Text :=
  match Document.parse ours with
  | .error fault => .error (.ours, fault)
  | .ok oursDoc =>
    match Document.parse theirs with
    | .error fault => .error (.theirs, fault)
    | .ok theirsDoc =>
      match readBase oursDoc.month base with
      | .error fault => .error (.base, fault)
      | .ok baseDoc =>
        match mergeDocuments baseDoc oursDoc theirsDoc with
        | .error fault => .error (.ours, fault)
        | .ok merged => .ok merged.render

/-- `merge`: the outcome, and the files after it. -/
def merge (files : Input → Text) : Except Refusal Unit × (Input → Text) :=
  match mergeTexts (files .base) (files .ours) (files .theirs) with
  | .error refusal => (.error refusal, files)
  | .ok text => (.ok (), fun input => if input = .ours then text else files input)

/-! ## Entries -/

theorem mergeEntry_comm (id : Text) (a b old : Option Block) :
    mergeEntry id a b old = mergeEntry id b a old := by
  cases a with
  | none => cases b <;> rfl
  | some a =>
    cases b with
    | none => rfl
    | some b =>
      unfold mergeEntry
      simp only
      by_cases hab : a = b
      · rw [if_pos (.inl hab), if_pos (.inl hab.symm), hab]
      · by_cases ha : some a = old
        · have hb : some b ≠ old := fun hb => hab (Option.some.inj (ha.trans hb.symm))
          rw [if_neg (by simp [hab, hb]), if_pos ha, if_pos (.inr ha)]
        · by_cases hb : some b = old
          · rw [if_pos (.inr hb), if_neg (by simp [Ne.symm hab, ha]), if_pos hb]
          · rw [if_neg (by simp [hab, hb]), if_neg ha, if_neg (by simp [Ne.symm hab, ha]), if_neg hb]

/-- The entry that has been kept is kept again. -/
theorem mergeEntry_again {w : Option Block}
    (h : mergeEntry id a b old = orErr w .panic) : mergeEntry id w b old = orErr w .panic := by
  cases a with
  | none =>
    cases b with
    | none =>
      cases w with
      | none => rfl
      | some w => cases h
    | some b =>
      cases w with
      | none => cases h
      | some w =>
        obtain rfl := Except.ok.inj h
        unfold mergeEntry
        simp only [true_or, if_true, orErr]
  | some a =>
    cases b with
    | none =>
      cases w with
      | none => cases h
      | some w =>
        rfl
    | some b =>
      cases w with
      | none =>
        unfold mergeEntry at h
        simp only at h
        split at h
        · cases h
        · split at h <;> cases h
      | some w =>
        unfold mergeEntry at h ⊢
        simp only at h ⊢
        split at h
        next hsame =>
          obtain rfl := Except.ok.inj h
          rw [if_pos hsame]
          rfl
        next =>
          split at h
          next =>
            obtain rfl := Except.ok.inj h
            rw [if_pos (.inl rfl)]
            rfl
          next => cases h

theorem mergeEntry_eq_ok (h : mergeEntry id a b old = .ok e) : a = some e ∨ b = some e := by
  unfold mergeEntry at h
  split at h
  · split at h
    · exact .inl (congrArg some (Except.ok.inj h))
    · split at h
      · exact .inr (congrArg some (Except.ok.inj h))
      · cases h
  · exact .inl (congrArg some (Except.ok.inj h))
  · exact .inr (congrArg some (Except.ok.inj h))
  · cases h

theorem mergedPreamble_comm (base ours theirs : Document) :
    mergedPreamble base ours theirs = mergedPreamble base theirs ours := by
  unfold mergedPreamble
  by_cases hsame : ours.preamble = theirs.preamble
  · rw [if_pos (.inl hsame), if_pos (.inl hsame.symm), hsame]
  · by_cases hours : ours.preamble = base.preamble
    · have htheirs : theirs.preamble ≠ base.preamble := fun h => hsame (hours.trans h.symm)
      rw [if_neg (by simp [hsame, htheirs]), if_pos hours, if_pos (.inr hours)]
    · by_cases htheirs : theirs.preamble = base.preamble
      · rw [if_pos (.inr htheirs), if_neg (by simp [Ne.symm hsame, hours]), if_pos htheirs]
      · rw [if_neg (by simp [hsame, htheirs]), if_neg hours, if_neg (by simp [Ne.symm hsame, hours]),
          if_neg htheirs]

theorem mergedPreamble_again (h : mergedPreamble base ours theirs = some merged.preamble) :
    mergedPreamble base merged theirs = some merged.preamble := by
  unfold mergedPreamble at h ⊢
  split at h
  next hsame =>
    obtain heq := Option.some.inj h
    rw [heq] at hsame
    rw [if_pos hsame]
  next =>
    split at h
    next => rw [if_pos (.inl (Option.some.inj h).symm)]
    next => cases h

/-! ## Documents -/

theorem foldlM_pick_eq_ok {doc doc' : Document} :
    ids.foldlM (fun doc id => do
      let entry ← pick id
      doc.add entry) doc = .ok doc' ↔
      ∃ entries, ids.mapM pick = .ok entries ∧ entries.foldlM Document.add doc = .ok doc' := by
  induction ids generalizing doc with
  | nil =>
    rw [foldlM_nil, mapM_nil]
    constructor
    · exact fun h => ⟨[], rfl, h⟩
    · rintro ⟨entries, hentries, h⟩
      cases hentries
      exact h
  | cons id ids ih =>
    rw [foldlM_cons, bind_eq_ok, mapM_cons]
    constructor
    · rintro ⟨mid, hmid, hrest⟩
      obtain ⟨entry, hpick, hadd⟩ := bind_eq_ok.mp hmid
      obtain ⟨entries, hentries, hfold⟩ := ih.mp hrest
      refine ⟨entry :: entries, ?_, ?_⟩
      · rw [hpick, hentries]
        rfl
      · rw [foldlM_cons, hadd]
        exact hfold
    · rintro ⟨all, hall, hfold⟩
      obtain ⟨entry, hpick, hall⟩ := bind_eq_ok.mp hall
      obtain ⟨entries, hentries, hall⟩ := bind_eq_ok.mp hall
      cases hall
      rw [foldlM_cons] at hfold
      obtain ⟨mid, hadd, hfold⟩ := bind_eq_ok.mp hfold
      exact ⟨mid, bind_eq_ok.mpr ⟨entry, hpick, hadd⟩, ih.mpr ⟨entries, hentries, hfold⟩⟩

/-- What a successful `mapM` gives, one by one. -/
theorem mapM_pick
    (h : ids.mapM pick = .ok entries) : Forall₂ (fun id e => pick id = .ok e) ids entries := by
  induction ids generalizing entries with
  | nil =>
    cases h
    exact .nil
  | cons id ids ih =>
    rw [mapM_cons] at h
    obtain ⟨entry, hpick, h⟩ := bind_eq_ok.mp h
    obtain ⟨rest, hrest, h⟩ := bind_eq_ok.mp h
    cases h
    exact .cons hpick (ih hrest)

theorem exists_mapM_pick
    (h : ∀ id ∈ ids, ∃ e, pick id = .ok e) : ∃ entries, ids.mapM pick = .ok entries := by
  induction ids with
  | nil => exact ⟨[], rfl⟩
  | cons id ids ih =>
    obtain ⟨e, he⟩ := h id mem_cons_self
    obtain ⟨entries, hentries⟩ := ih fun id hid => h id (mem_cons_of_mem _ hid)
    exact ⟨e :: entries, by rw [mapM_cons, he, hentries]; rfl⟩

theorem exists_of_mapM_pick
    (h : ids.mapM pick = .ok entries) (hid : id ∈ ids) : ∃ e ∈ entries, pick id = .ok e := by
  have hall := mapM_pick h
  clear h
  induction hall with
  | nil => exact absurd hid not_mem_nil
  | cons hhead htail ih =>
    rcases List.mem_cons.mp hid with rfl | hid
    · exact ⟨_, mem_cons_self, hhead⟩
    · obtain ⟨e, he, hok⟩ := ih hid
      exact ⟨e, mem_cons_of_mem _ he, hok⟩

theorem identities_of_mapM_pick (h : ids.mapM pick = .ok entries)
    (hpick : ∀ {id e}, pick id = .ok e → e.identity = id) : entries.map (·.identity) = ids := by
  have hall := mapM_pick h
  clear h
  induction hall with
  | nil => rfl
  | cons hhead htail ih => rw [map_cons, ih, hpick hhead]

/-- The merged document is decided at every identity. -/
theorem mergeDocuments_eq_ok (hours : ours.Valid) (htheirs : theirs.Valid)
    (hmonth : theirs.month = ours.month) (hbase : base.month = ours.month) :
    mergeDocuments base ours theirs = .ok merged ↔
      merged.month = ours.month ∧ mergedPreamble base ours theirs = some merged.preamble ∧
      ∀ k, mergeEntry k (ours.entries.find? k) (theirs.entries.find? k) (base.entries.find? k) =
        orErr (merged.entries.find? k) .panic := by
  have hmonths : ¬ (ours.month ≠ theirs.month ∨ ours.month ≠ base.month) := by simp [hmonth, hbase]
  have hpick : ∀ {k e}, mergeEntry k (ours.entries.find? k) (theirs.entries.find? k)
      (base.entries.find? k) = .ok e → e.identity = k ∧ e.date.month = ours.month := by
    intro k e h
    rcases mergeEntry_eq_ok h with h | h
    · exact ⟨(hours.entries h).1, (hours.entries h).2.1⟩
    · exact ⟨(htheirs.entries h).1, (htheirs.entries h).2.1.trans hmonth⟩
  have hids : ∀ k, k ∉ sortDedup (ours.entries.keys ++ theirs.entries.keys) ↔
      ours.entries.find? k = none ∧ theirs.entries.find? k = none := by
    intro k
    rw [mem_sortDedup, mem_append, not_or, SortedMap.find?_eq_none_iff, SortedMap.find?_eq_none_iff]
  have hnodup : (sortDedup (ours.entries.keys ++ theirs.entries.keys)).Nodup :=
    (sortDedup_sorted _).imp ne_of_lt
  rw [mergeDocuments, if_neg hmonths]
  cases hpreamble : mergedPreamble base ours theirs with
  | none =>
    simp only
    constructor
    · intro h
      cases h
    · rintro ⟨-, h, -⟩
      cases h
  | some preamble =>
    simp only
    rw [foldlM_pick_eq_ok]
    constructor
    · rintro ⟨entries, hentries, hfold⟩
      obtain ⟨-, -, hm, hp, hfind⟩ := foldlM_add_eq_ok.mp hfold
      have hforall := mapM_pick hentries
      refine ⟨hm, by rw [hp], fun k => ?_⟩
      by_cases hk : k ∈ sortDedup (ours.entries.keys ++ theirs.entries.keys)
      · obtain ⟨e, he, hok⟩ := exists_of_mapM_pick hentries hk
        rw [hok, (hfind k e).mpr (.inl ⟨he, (hpick hok).1⟩), orErr]
      · obtain ⟨ho, ht⟩ := (hids k).mp hk
        have hnone : merged.entries.find? k = none := by
          cases hfound : merged.entries.find? k with
          | none => rfl
          | some e =>
            rcases (hfind k e).mp hfound with ⟨he, heq⟩ | hfound
            · obtain ⟨id, hid, hok⟩ := mem_of_mapM_eq_ok hentries he
              rw [← heq, (hpick hok).1] at hk
              exact absurd hid hk
            · cases hfound
        rw [ho, ht, hnone]
        rfl
    · rintro ⟨hm, hp, hfind⟩
      have hentry : ∀ id ∈ sortDedup (ours.entries.keys ++ theirs.entries.keys),
          ∃ e, merged.entries.find? id = some e := by
        intro id hid
        cases hfound : merged.entries.find? id with
        | some e => exact ⟨e, rfl⟩
        | none =>
          have hk := hfind id
          rw [hfound] at hk
          by_contra
          refine absurd hid ((hids id).mpr ?_)
          unfold mergeEntry at hk
          split at hk
          · split at hk
            · cases hk
            · split at hk <;> cases hk
          · cases hk
          · cases hk
          · rename_i ho ht
            exact ⟨ho, ht⟩
      have hmem : ∀ {k e}, merged.entries.find? k = some e →
          k ∈ sortDedup (ours.entries.keys ++ theirs.entries.keys) ∧ e.identity = k ∧
            e.date.month = ours.month := by
        intro k e he
        have hk := hfind k
        rw [he, orErr] at hk
        refine ⟨?_, hpick hk⟩
        by_contra hnot
        obtain ⟨ho, ht⟩ := (hids k).mp hnot
        rw [ho, ht] at hk
        cases hk
      obtain ⟨entries, hentries⟩ := exists_mapM_pick fun id hid => by
        obtain ⟨e, he⟩ := hentry id hid
        have hk := hfind id
        rw [he] at hk
        exact ⟨e, hk⟩
      have hentries' : ∀ {k e}, merged.entries.find? k = some e ↔ e ∈ entries ∧ e.identity = k := by
        intro k e
        constructor
        · intro he
          obtain ⟨hid, heq, -⟩ := hmem he
          obtain ⟨e', he', hok⟩ := exists_of_mapM_pick hentries hid
          have hk := hfind k
          rw [he, hok] at hk
          obtain rfl := Except.ok.inj hk
          exact ⟨he', heq⟩
        · rintro ⟨he, rfl⟩
          obtain ⟨id, hid, hok⟩ := mem_of_mapM_eq_ok hentries he
          obtain ⟨e', he'⟩ := hentry id hid
          have hk := hfind id
          rw [he', hok] at hk
          obtain rfl := Except.ok.inj hk
          rw [(hpick hok).1, he']
      refine ⟨entries, hentries, foldlM_add_eq_ok.mpr ⟨fun e he => ?_, ?_, hm, ?_, fun k b => ?_⟩⟩
      · exact ⟨(hmem (hentries'.mpr ⟨he, rfl⟩)).2.2, rfl⟩
      · rw [identities_of_mapM_pick hentries fun h => (hpick h).1]
        exact hnodup
      · exact (Option.some.inj hp).symm
      · rw [hentries']
        constructor
        · exact .inl
        · rintro (h | h)
          · exact h
          · cases h

theorem mergeDocuments_comm (base : Document) (hmonth : theirs.month = ours.month) :
    mergeDocuments base ours theirs = mergeDocuments base theirs ours := by
  have hids : sortDedup (ours.entries.keys ++ theirs.entries.keys) =
      sortDedup (theirs.entries.keys ++ ours.entries.keys) := by
    refine eq_of_mem_iff (sortDedup_sorted _) (sortDedup_sorted _) fun k => ?_
    rw [mem_sortDedup, mem_sortDedup, mem_append, mem_append, or_comm]
  have hentry : ∀ id, mergeEntry id (ours.entries.find? id) (theirs.entries.find? id)
      (base.entries.find? id) = mergeEntry id (theirs.entries.find? id) (ours.entries.find? id)
        (base.entries.find? id) := fun id => mergeEntry_comm id _ _ _
  rw [mergeDocuments, mergeDocuments, mergedPreamble_comm, hids, hmonth]
  simp only [hentry]

theorem valid_of_merge (hours : ours.Valid) (htheirs : theirs.Valid)
    (hmonth : theirs.month = ours.month) (hbase : base.month = ours.month)
    (h : mergeDocuments base ours theirs = .ok merged) : merged.Valid := by
  obtain ⟨hmerged, hpreamble, hfind⟩ := (mergeDocuments_eq_ok hours htheirs hmonth hbase).mp h
  have hentry : ∀ {k e}, merged.entries.find? k = some e →
      e.identity = k ∧ e.date.month = merged.month ∧ e.Valid := by
    intro k e he
    have hk := hfind k
    rw [he, orErr] at hk
    rcases mergeEntry_eq_ok hk with hk | hk
    · obtain ⟨hid, hdate, hvalid⟩ := hours.entries hk
      exact ⟨hid, hdate.trans hmerged.symm, hvalid⟩
    · obtain ⟨hid, hdate, hvalid⟩ := htheirs.entries hk
      exact ⟨hid, (hdate.trans hmonth).trans hmerged.symm, hvalid⟩
  have hside : merged.preamble = ours.preamble ∨ merged.preamble = theirs.preamble := by
    unfold mergedPreamble at hpreamble
    split at hpreamble
    · exact .inl (Option.some.inj hpreamble).symm
    · split at hpreamble
      · exact .inr (Option.some.inj hpreamble).symm
      · cases hpreamble
  rcases hside with heq | heq
  · exact ⟨by rw [heq, hours.heading, hmerged], heq ▸ hours.quiet, heq ▸ hours.lines, hentry⟩
  · exact ⟨by rw [heq, htheirs.heading, hmerged, hmonth], heq ▸ htheirs.quiet, heq ▸ htheirs.lines, hentry⟩

theorem mergeDocuments_again (hours : ours.Valid) (htheirs : theirs.Valid)
    (hmonth : theirs.month = ours.month) (hbase : base.month = ours.month)
    (h : mergeDocuments base ours theirs = .ok merged) :
    mergeDocuments base merged theirs = .ok merged := by
  have hvalid := valid_of_merge hours htheirs hmonth hbase h
  obtain ⟨hmerged, hpreamble, hfind⟩ := (mergeDocuments_eq_ok hours htheirs hmonth hbase).mp h
  rw [mergeDocuments_eq_ok hvalid htheirs (hmonth.trans hmerged.symm) (hbase.trans hmerged.symm)]
  exact ⟨rfl, mergedPreamble_again hpreamble, fun k => mergeEntry_again (hfind k)⟩

/-! ## The union -/

structure IsUnion (base ours theirs merged : Document) : Prop where
  identities : ∀ k, (merged.entries.find? k).isSome ↔
    (ours.entries.find? k).isSome ∨ (theirs.entries.find? k).isSome
  entries : ∀ {k e}, merged.entries.find? k = some e →
    ours.entries.find? k = some e ∨ theirs.entries.find? k = some e
  ours_changed : ∀ {k e}, theirs.entries.find? k = base.entries.find? k →
    ours.entries.find? k = some e → merged.entries.find? k = some e
  theirs_changed : ∀ {k e}, ours.entries.find? k = base.entries.find? k →
    theirs.entries.find? k = some e → merged.entries.find? k = some e

theorem eq_some_of_orErr {w : Option Block} (h : Except.ok e = orErr w Fault.panic) :
    w = some e := by
  cases w with
  | none => cases h
  | some w => rw [Except.ok.inj h]

theorem mergeEntry_changed (hb : b = old) (ha : a = some e) : mergeEntry id a b old = .ok e := by
  subst hb ha
  cases b with
  | none => rfl
  | some b =>
    unfold mergeEntry
    simp only [or_true, if_true]

theorem isUnion_of_merge (hours : ours.Valid) (htheirs : theirs.Valid)
    (hmonth : theirs.month = ours.month) (hbase : base.month = ours.month)
    (h : mergeDocuments base ours theirs = .ok merged) : IsUnion base ours theirs merged := by
  obtain ⟨-, -, hfind⟩ := (mergeDocuments_eq_ok hours htheirs hmonth hbase).mp h
  refine ⟨fun k => ?_, fun {k e} he => ?_, fun {k e} hsame he => ?_, fun {k e} hsame he => ?_⟩
  · have hk := hfind k
    cases hfound : merged.entries.find? k with
    | some e =>
      rw [hfound, orErr] at hk
      rcases mergeEntry_eq_ok hk with hk | hk
      · exact iff_of_true rfl (.inl (by rw [hk]; rfl))
      · exact iff_of_true rfl (.inr (by rw [hk]; rfl))
    | none =>
      rw [hfound, orErr] at hk
      refine iff_of_false (by simp) ?_
      unfold mergeEntry at hk
      split at hk
      · split at hk
        · cases hk
        · split at hk <;> cases hk
      · cases hk
      · cases hk
      · next ho ht => simp [ho, ht]
  · have hk := hfind k
    rw [he, orErr] at hk
    exact mergeEntry_eq_ok hk
  · have hk := hfind k
    rw [mergeEntry_changed hsame he] at hk
    exact eq_some_of_orErr hk
  · have hk := hfind k
    rw [mergeEntry_comm, mergeEntry_changed hsame he] at hk
    exact eq_some_of_orErr hk

/-! ## The order -/

theorem Block.le_total (a b : Block) : Block.le a b || Block.le b a := by
  simp only [Block.le, Bool.or_eq_true, decide_eq_true_eq]
  rcases lt_trichotomy a.date b.date with h | h | h
  · exact .inr (.inl h)
  · rcases lt_trichotomy a.slug b.slug with h' | h' | h'
    · exact .inl (.inr ⟨h, .inl h'⟩)
    · rcases LinearOrder.le_total a.identity b.identity with h'' | h''
      · exact .inl (.inr ⟨h, .inr ⟨h', h''⟩⟩)
      · exact .inr (.inr ⟨h.symm, .inr ⟨h'.symm, h''⟩⟩)
    · exact .inr (.inr ⟨h.symm, .inl h'⟩)
  · exact .inl (.inl h)

theorem Block.le_trans {a b c : Block} (hab : Block.le a b) (hbc : Block.le b c) : Block.le a c := by
  simp only [Block.le, decide_eq_true_eq] at *
  rcases hab with hab | ⟨hab, hab'⟩
  · rcases hbc with hbc | ⟨hbc, -⟩
    · exact .inl (hbc.trans hab)
    · exact .inl (hbc ▸ hab)
  · rcases hbc with hbc | ⟨hbc, hbc'⟩
    · exact .inl (hab ▸ hbc)
    · refine .inr ⟨hab.trans hbc, ?_⟩
      rcases hab' with hab' | ⟨hab', hab''⟩
      · rcases hbc' with hbc' | ⟨hbc', -⟩
        · exact .inl (hab'.trans hbc')
        · exact .inl (hbc' ▸ hab')
      · rcases hbc' with hbc' | ⟨hbc', hbc''⟩
        · exact .inl (hab' ▸ hbc')
        · exact .inr ⟨hab'.trans hbc', hab''.trans hbc''⟩

theorem ordered_sorted (doc : Document) : doc.ordered.Pairwise fun a b => Block.le a b = true :=
  pairwise_sortBy Block.le_total Block.le_trans _

/-! ## The driver -/

variable {baseText oursText theirsText : Text}

theorem mergeTexts_eq (hours : Document.parse oursText = .ok ours)
    (htheirs : Document.parse theirsText = .ok theirs)
    (hbase : readBase ours.month baseText = .ok base) : mergeTexts baseText oursText theirsText =
      match mergeDocuments base ours theirs with
      | .error fault => .error (.ours, fault)
      | .ok merged => .ok merged.render := by
  rw [mergeTexts, hours]
  simp only [htheirs, hbase]

/-- The merge of two files of one month is a lossless union. -/
theorem merge_lossless (hours : Document.parse oursText = .ok ours)
    (htheirs : Document.parse theirsText = .ok theirs) (hmonth : theirs.month = ours.month)
    (hbase : readBase ours.month baseText = .ok base) (hbaseMonth : base.month = ours.month) :
    (∀ text, mergeTexts baseText oursText theirsText = .ok text → ∃ merged,
      Document.parse text = .ok merged ∧ IsUnion base ours theirs merged ∧
      (∃ entries, blocks text = .ok entries ∧ entries.Pairwise (fun a b => Block.le a b = true) ∧
        (entries.map (·.identity)).Nodup ∧
        ∀ e, e ∈ entries ↔ merged.entries.find? e.identity = some e) ∧
      mergeTexts baseText text theirsText = .ok text ∧ mergeTexts baseText oursText text = .ok text) ∧
    mergeTexts baseText oursText theirsText = mergeTexts baseText theirsText oursText ∧
    (∀ files refusal, (merge files).1 = .error refusal → (merge files).2 = files) ∧
    ∀ contents doc, Document.parse contents = .ok doc → Document.parse doc.render = .ok doc := by
  have hoursValid := valid_of_parse hours
  have htheirsValid := valid_of_parse htheirs
  have hbase' : readBase theirs.month baseText = .ok base := hmonth ▸ hbase
  have hcomm : mergeTexts baseText oursText theirsText = mergeTexts baseText theirsText oursText := by
    rw [mergeTexts_eq hours htheirs hbase, mergeTexts_eq htheirs hours hbase',
      mergeDocuments_comm base hmonth]
  refine ⟨fun text htext => ?_, hcomm, fun files refusal h => ?_, fun _ _ => parse_render_parse⟩
  · rw [mergeTexts_eq hours htheirs hbase] at htext
    cases hmerge : mergeDocuments base ours theirs with
    | error fault =>
      rw [hmerge] at htext
      cases htext
    | ok merged =>
      rw [hmerge] at htext
      obtain rfl := Except.ok.inj htext
      have hvalid := valid_of_merge hoursValid htheirsValid hmonth hbaseMonth hmerge
      have hmergedMonth := ((mergeDocuments_eq_ok hoursValid htheirsValid hmonth hbaseMonth).mp hmerge).1
      have hparse := parse_render hvalid
      have hbaseMerged : readBase merged.month baseText = .ok base := hmergedMonth ▸ hbase
      have htheirsAgain := mergeDocuments_again hoursValid htheirsValid hmonth hbaseMonth hmerge
      rw [mergeDocuments_comm base hmonth] at hmerge
      have hoursAgain := mergeDocuments_again htheirsValid hoursValid hmonth.symm
        (hbaseMonth.trans hmonth.symm) hmerge
      rw [← mergeDocuments_comm base (hmergedMonth)] at hoursAgain
      refine ⟨merged, hparse, ?_, ?_, ?_, ?_⟩
      · rw [← mergeDocuments_comm base hmonth] at hmerge
        exact isUnion_of_merge hoursValid htheirsValid hmonth hbaseMonth hmerge
      · exact ⟨merged.ordered, (render_pieces hvalid).1, ordered_sorted merged, hvalid.nodup,
          fun e => hvalid.mem_ordered⟩
      · rw [mergeTexts_eq hparse htheirs hbaseMerged, htheirsAgain]
      · rw [mergeTexts_eq hours hparse hbase, hoursAgain]
  · unfold merge at h ⊢
    split at h
    next => rfl
    next => cases h

def januaryEntries (slugs : List String) : Text :=
  januaryMonth.heading ++ ['\n'] ++ slugs.flatMap fun slug =>
    ("\n## 2024-01-02 - A\n<!-- devlog-id: 2024-01-02-" ++ slug ++
      " -->\n\n### Result\n\n- x\n").toList

/-- Both sides keep the entry of the base and add one. -/
theorem merge_lossless_january : ∃ base ours theirs merged text,
    Document.parse (januaryEntries ["a"]) = .ok base ∧
    Document.parse (januaryEntries ["a", "b"]) = .ok ours ∧
    Document.parse (januaryEntries ["a", "c"]) = .ok theirs ∧
    mergeTexts (januaryEntries ["a"]) (januaryEntries ["a", "b"]) (januaryEntries ["a", "c"]) =
      .ok text ∧
    Document.parse text = .ok merged ∧ IsUnion base ours theirs merged ∧
    text = januaryEntries ["a", "b", "c"] := by
  have hparse : ∀ slugs ∈ [["a"], ["a", "b"], ["a", "c"]], ∃ doc,
      Document.parse (januaryEntries slugs) = .ok doc ∧ doc.month = januaryMonth := by
    intro slugs hslugs
    have hall : ([["a"], ["a", "b"], ["a", "c"]].all fun slugs =>
        (Document.parse (januaryEntries slugs)).toOption.any (·.month = januaryMonth)) = true := by
      decide +kernel
    obtain ⟨doc, hdoc, hmonth⟩ := (Option.any_eq_true _ _).mp (List.all_eq_true.mp hall slugs hslugs)
    exact ⟨doc, ok_of_toOption hdoc, of_decide_eq_true hmonth⟩
  obtain ⟨base, hbase, hbaseMonth⟩ := hparse ["a"] (by simp)
  obtain ⟨ours, hours, hoursMonth⟩ := hparse ["a", "b"] (by simp)
  obtain ⟨theirs, htheirs, htheirsMonth⟩ := hparse ["a", "c"] (by simp)
  have hread : readBase ours.month (januaryEntries ["a"]) = .ok base :=
    (if_neg (by decide +kernel)).trans hbase
  have htext : mergeTexts (januaryEntries ["a"]) (januaryEntries ["a", "b"])
      (januaryEntries ["a", "c"]) = .ok (januaryEntries ["a", "b", "c"]) :=
    ok_of_toOption (by decide +kernel)
  obtain ⟨merged, hmerged, hunion, -⟩ := (merge_lossless hours htheirs
    (htheirsMonth.trans hoursMonth.symm) hread (hbaseMonth.trans hoursMonth.symm)).1 _ htext
  exact ⟨base, ours, theirs, merged, _, hbase, hours, htheirs, htext, hmerged, hunion, rfl⟩

end NilsCli.Devlog
