import NilsCli.Review.Walk

/-!
# Two reads of one ledger

Comments are only ever added, so a later read sees every record that an earlier one saw.
-/

namespace NilsCli.Review

open Lib List

section
variable {State Receipt : Type} {host : Host State Receipt}
  {record : ReviewStateRecord State Receipt}
  {ordered records : List (ReviewStateRecord State Receipt)}

def Kept (record : ReviewStateRecord State Receipt)
    (records : List (ReviewStateRecord State Receipt)) : Prop :=
  record ∈ records ∨ ∃ later ∈ records, ∃ handoff, later.handoff = some handoff ∧
    later.generation ≤ record.generation ∧
      ∃ generation, record.assignmentGeneration = some generation ∧
        generation < handoff.assignmentGeneration

def Harmless (records : List (ReviewStateRecord State Receipt))
    (record : ReviewStateRecord State Receipt) : Prop :=
  ∀ handoff, record.handoff = some handoff → ∀ previous ∈ records,
    record.previousDigest = some previous.recordDigest → ∀ below ∈ records,
      previous.generation + 1 < below.generation → ∀ lower, below.handoff = some lower →
        lower.assignmentGeneration < handoff.assignmentGeneration

instance (records : List (ReviewStateRecord State Receipt)) (record : ReviewStateRecord State Receipt) :
    Decidable (Harmless records record) :=
  decidable_of_iff
    (record.handoff.all fun handoff => decide (∀ previous ∈ records,
      record.previousDigest = some previous.recordDigest → ∀ below ∈ records,
        previous.generation + 1 < below.generation → below.handoff.all fun lower =>
          lower.assignmentGeneration < handoff.assignmentGeneration))
    (by simp [Harmless, Option.all_eq_true])

theorem Kept.trans {middle later : List (ReviewStateRecord State Receipt)}
    (hmiddle : Admitted host middle) (h : Kept record middle)
    (hlater : ∀ record ∈ middle, Kept record later) : Kept record later := by
  rcases h with hmem | ⟨winner, hmem, handoff, hhandoff, hplace, generation, hrecord, hlt⟩
  · exact hlater record hmem
  · rcases hlater winner hmem with hkept | ⟨winner', hmem', handoff', hhandoff', hplace', n, hn, hlt'⟩
    · exact .inr ⟨winner, hkept, handoff, hhandoff, hplace, generation, hrecord, hlt⟩
    · rw [hmiddle.handoff_generation hmem hhandoff] at hn
      cases hn
      exact .inr ⟨winner', hmem', handoff', hhandoff', hplace'.trans hplace, generation, hrecord,
        hlt.trans hlt'⟩

theorem latestGeneration_mono {later : List (ReviewStateRecord State Receipt)}
    (hrecords : Admitted host records) (hlater : Admitted host later)
    (h : ∀ record ∈ records, Kept record later) :
    latestGeneration records ≤ latestGeneration later := by
  cases hlatest : latest records with
  | none => simp [latestGeneration, hlatest]
  | some handoff =>
    obtain ⟨record, hmem, hhandoff⟩ := exists_of_latest hlatest
    have hgeneration : latestGeneration records = handoff.assignmentGeneration := by
      simp [latestGeneration, hlatest]
    rw [hgeneration]
    rcases h record hmem with hkept | ⟨winner, hwinner, handoff', hhandoff', -, n, hn, hlt⟩
    · exact hlater.le_latestGeneration hkept hhandoff
    · rw [hrecords.handoff_generation hmem hhandoff] at hn
      cases hn
      exact hlt.le.trans (hlater.le_latestGeneration hwinner hhandoff')

/-! ## Where two chains part -/

theorem Admitted.generation_le {before after : List (ReviewStateRecord State Receipt)} {n : Nat}
    {active : ReviewHandoff} (h : Admitted host (before ++ after))
    (hactive : latest before = some active) (hle : active.assignmentGeneration ≤ n)
    (hafter : ∀ record ∈ after, ∀ handoff, record.handoff = some handoff →
      handoff.assignmentGeneration ≤ n) (hmem : record ∈ after) :
    ∃ generation, record.assignmentGeneration = some generation ∧ generation ≤ n := by
  obtain ⟨upper, lower, rfl⟩ := List.append_of_mem hmem
  have hplace : before ++ (upper ++ record :: lower) = (before ++ upper) ++ record :: lower := by
    simp
  rw [hplace] at h
  rw [h.assignmentGeneration, append_assoc, latest_append, hactive]
  cases hlatest : latest (upper ++ [record]) with
  | none => exact ⟨active.assignmentGeneration, rfl, hle⟩
  | some handoff =>
    obtain ⟨carrier, hcarrier, hhandoff⟩ := exists_of_latest hlatest
    refine ⟨handoff.assignmentGeneration, rfl, hafter carrier ?_ handoff hhandoff⟩
    rw [mem_append, mem_singleton] at hcarrier
    rcases hcarrier with hcarrier | rfl
    · exact mem_append_left _ hcarrier
    · exact mem_append_right _ mem_cons_self

variable [DecidableEq State] [DecidableEq Receipt]
  {byDigest byDigest' chain chain' stale stale' : List (ReviewStateRecord State Receipt)}
  {following following' : ReviewStateRecord State Receipt}

omit [DecidableEq State] [DecidableEq Receipt] in
theorem children_subset (hsub : byDigest ⊆ byDigest') (previous : Option String) :
    children byDigest previous ⊆ children byDigest' previous := by
  intro record hmem
  obtain ⟨hrecord, hprevious⟩ := List.mem_filter.mp hmem
  exact List.mem_filter.mpr ⟨hsub hrecord, hprevious⟩

theorem nextRecord_parts {candidates candidates' : List (ReviewStateRecord State Receipt)}
    (h : nextRecord ordered candidates = .ok (some (following, stale)))
    (h' : nextRecord ordered candidates' = .ok (some (following', stale')))
    (hsub : candidates ⊆ candidates') (hne : following ≠ following') :
    following' ∉ candidates ∧ ∃ active handoff, latest ordered = some active ∧
      following'.handoff = some handoff ∧
      handoff.assignmentGeneration = active.assignmentGeneration + 1 ∧
      following.assignmentGeneration = some active.assignmentGeneration := by
  obtain ⟨-, -, active, handoff, hactive, hhandoff, hgeneration, -, hothers⟩ :=
    resolveFork_ok (nextRecord_fork h' (hsub (nextRecord_mem h)) hne)
  have hfollowing := hothers following (hsub (nextRecord_mem h)) hne
  refine ⟨?_, active, handoff, hactive, hhandoff, hgeneration, hfollowing⟩
  intro hmem
  -- an old winner beside an old record of the earlier generation would have won before
  obtain ⟨-, -, active', -, hactive', -, -, hfirst, -⟩ :=
    resolveFork_ok (nextRecord_fork h hmem (Ne.symm hne))
  rw [hactive] at hactive'
  cases hactive'
  rw [hfollowing] at hfirst
  have := Option.some.inj hfirst
  omega

theorem Descends.kept (h : Descends host byDigest ordered record chain)
    (h' : Descends host byDigest' ordered record chain') (hordered : Admitted host ordered)
    (hsub : byDigest ⊆ byDigest')
    (hnew : ∀ other ∈ byDigest', other ∉ byDigest → Harmless chain other) :
    ∀ other ∈ chain, Kept other chain' := by
  induction h with
  | tip hadmits hlast =>
    intro other hmem
    obtain ⟨rest, rfl⟩ := h'.prefix
    left
    rw [mem_append, mem_singleton] at hmem
    rcases hmem with hmem | rfl
    · exact mem_append_left _ hmem
    · exact mem_append_right _ mem_cons_self
  | @next ordered stale chain record following hadmits hnext hrest ih =>
    have hchildren := children_subset hsub (some record.recordDigest)
    have hchain := hrest.admitted (hordered.concat hadmits)
    cases h' with
    | tip _ hlast =>
      have := hchildren (nextRecord_mem hnext)
      rw [hlast] at this
      cases this
    | @next _ stale' _ _ following' _ hnext' hrest' =>
      by_cases hsame : following = following'
      · subst hsame
        exact ih hrest' (hordered.concat hadmits) hnew
      · obtain ⟨hfresh, active, handoff, hactive, hhandoff, hgeneration, hfollowing⟩ :=
          nextRecord_parts hnext hnext' hchildren hsame
        obtain ⟨hmem', hprevious⟩ := List.mem_filter.mp (nextRecord_mem hnext')
        rw [decide_eq_true_eq] at hprevious
        have hharmless := hnew following' hmem' fun hold =>
          hfresh (List.mem_filter.mpr ⟨hold, by simpa using hprevious⟩)
        have hchain' := hrest'.admitted (hordered.concat hadmits)
        obtain ⟨rest, rfl⟩ := hrest.prefix
        obtain ⟨rest', rfl⟩ := hrest'.prefix
        have hrecord : record.generation = ordered.length := (admit_ok hadmits).1
        have hbelow : ∀ carrier ∈ following :: rest, ∀ lower, carrier.handoff = some lower →
            lower.assignmentGeneration ≤ active.assignmentGeneration := by
          intro carrier hcarrier lower hlower
          rcases List.mem_cons.mp hcarrier with rfl | hcarrier
          · have hnamed := hchain.handoff_generation (by simp) hlower
            rw [hfollowing] at hnamed
            exact (Option.some.inj hnamed).ge
          · have hsplit : ordered ++ [record] ++ following :: rest =
                (ordered ++ [record] ++ [following]) ++ rest := by simp
            have hplace := (hsplit ▸ hchain).le_generation hcarrier
            have := hharmless handoff hhandoff record (by simp) hprevious carrier
              (by simp [hcarrier]) (by simp at hplace; omega) lower hlower
            omega
        intro other hmem
        rcases List.mem_append.mp hmem with hmem | hmem
        · exact .inl (mem_append_left _ hmem)
        · obtain ⟨generation, hnamed, hle⟩ :=
            hchain.generation_le hactive le_rfl hbelow hmem
          have hplace := hchain.le_generation hmem
          rw [← hchain'.generation] at hplace
          exact .inr ⟨following', by simp, handoff, hhandoff, hplace, generation, hnamed, by omega⟩

/-! ## Accepted reads -/

variable {repository : String} {pr : Nat} {comments added : List String}
  {read later : ReviewStateChain State Receipt}

omit [DecidableEq State] [DecidableEq Receipt] in
theorem stateRecords_append
    (h : stateRecords host repository pr (comments ++ added) = .ok records) :
    ∃ old new, stateRecords host repository pr comments = .ok old ∧
      stateRecords host repository pr added = .ok new ∧ records = old ++ new := by
  induction comments generalizing records with
  | nil => exact ⟨[], records, rfl, h, rfl⟩
  | cons comment comments ih =>
    rw [cons_append, stateRecords, bind_eq_ok] at h
    obtain ⟨found, hfound, h⟩ := h
    cases found with
    | none =>
      obtain ⟨old, new, hold, hnew, rfl⟩ := ih h
      exact ⟨old, new, by rw [stateRecords, hfound]; exact hold, hnew, rfl⟩
    | some record =>
      dsimp only at h
      rw [ensure_bind_ok, bind_eq_ok] at h
      obtain ⟨htarget, rest, hrest, h⟩ := h
      cases h
      obtain ⟨old, new, hold, hnew, rfl⟩ := ih hrest
      refine ⟨record :: old, new, ?_, hnew, rfl⟩
      rw [stateRecords, hfound, ok_bind]
      dsimp only
      rw [ensure_bind_ok, hold]
      exact ⟨htarget, rfl⟩

omit [DecidableEq State] [DecidableEq Receipt] in
theorem mem_stateRecords (h : stateRecords host repository pr comments = .ok records)
    (hmem : record ∈ records) :
    ∃ comment ∈ comments, host.parseStateMarker comment = .ok (some record) := by
  induction comments generalizing records with
  | nil =>
    cases h
    cases hmem
  | cons comment comments ih =>
    unfold stateRecords at h
    rw [bind_eq_ok] at h
    obtain ⟨found, hfound, h⟩ := h
    cases found with
    | none =>
      obtain ⟨source, hsource, hparsed⟩ := ih h hmem
      exact ⟨source, mem_cons_of_mem _ hsource, hparsed⟩
    | some first =>
      dsimp only at h
      rw [ensure_bind_ok, bind_eq_ok] at h
      obtain ⟨-, rest, hrest, h⟩ := h
      cases h
      rcases List.mem_cons.mp hmem with rfl | hmem
      · exact ⟨comment, mem_cons_self, hfound⟩
      · obtain ⟨source, hsource, hparsed⟩ := ih hrest hmem
        exact ⟨source, mem_cons_of_mem _ hsource, hparsed⟩

theorem mem_indexRecords {known : List (ReviewStateRecord State Receipt)}
    (h : indexRecords host known records = .ok byDigest) :
    record ∈ byDigest ↔ record ∈ known ∨ record ∈ records := by
  induction records generalizing known with
  | nil =>
    cases h
    simp
  | cons first records ih =>
    unfold indexRecords at h
    rw [bind_eq_ok] at h
    obtain ⟨-, -, h⟩ := h
    split at h
    next existing hfind =>
      rw [ensure_bind_ok] at h
      obtain ⟨rfl, h⟩ := h
      have hknown := List.mem_of_find?_eq_some hfind
      rw [ih h, mem_cons]
      constructor
      · rintro (hmem | hmem)
        · exact .inl hmem
        · exact .inr (.inr hmem)
      · rintro (hmem | rfl | hmem)
        · exact .inl hmem
        · exact .inl hknown
        · exact .inr hmem
    next =>
      rw [ih h, mem_append, mem_singleton, mem_cons, or_assoc]

section

variable (h : parseChain host repository pr comments = .ok read)

include h

theorem parseChain_walked :
    ∃ records, stateRecords host repository pr comments = .ok records ∧
      (records = [] ∧ read = ⟨[], none, []⟩ ∨ ∃ byDigest root chain ignored,
        indexRecords host [] records = .ok byDigest ∧ children byDigest none = [root] ∧
          walk host byDigest (byDigest.length + 1) [] [] root = .ok (chain, ignored) ∧
          chain.length + ignored.length = byDigest.length ∧
          read = ⟨chain, chain.getLast?.map (·.recordDigest), sortBy textLe ignored⟩) := by
  unfold parseChain at h
  rw [bind_eq_ok] at h
  obtain ⟨records, hrecords, h⟩ := h
  refine ⟨records, hrecords, ?_⟩
  split at h
  next hempty =>
    cases h
    exact .inl ⟨hempty, rfl⟩
  next =>
    rw [bind_eq_ok] at h
    obtain ⟨byDigest, hindex, h⟩ := h
    rw [ensure_bind_ok] at h
    obtain ⟨-, h⟩ := h
    split at h
    next root hroot =>
      rw [bind_eq_ok] at h
      obtain ⟨⟨chain, ignored⟩, hwalk, h⟩ := h
      rw [ensure_bind_ok] at h
      obtain ⟨hcount, h⟩ := h
      cases h
      exact .inr ⟨byDigest, root, chain, ignored, hindex, hroot, hwalk, hcount, rfl⟩
    next => cases h

theorem parseChain_ok :
    ∃ records, stateRecords host repository pr comments = .ok records ∧
      (records = [] ∧ read.records = [] ∨ ∃ byDigest root,
        (∀ record, record ∈ byDigest ↔ record ∈ records) ∧ children byDigest none = [root] ∧
          Descends host byDigest [] root read.records) := by
  obtain ⟨records, hrecords, ⟨hempty, rfl⟩ | ⟨byDigest, root, chain, ignored, hindex, hroot, hwalk, -,
    rfl⟩⟩ := parseChain_walked h
  · exact ⟨records, hrecords, .inl ⟨hempty, rfl⟩⟩
  · refine ⟨records, hrecords, .inr ⟨byDigest, root, fun record => ?_, hroot, walk_ok hwalk⟩⟩
    rw [mem_indexRecords hindex]
    simp

theorem parseChain_admitted :
    Admitted host read.records := by
  obtain ⟨records, -, ⟨-, hempty⟩ | ⟨byDigest, root, -, -, hwalk⟩⟩ := parseChain_ok h
  · rw [hempty]
    exact .nil
  · exact hwalk.admitted .nil

theorem parseChain_kept
    (hlater : parseChain host repository pr (comments ++ added) = .ok later)
    (hadded : ∀ comment ∈ added, ∀ record, host.parseStateMarker comment = .ok (some record) →
      Harmless read.records record) :
    ∀ record ∈ read.records, Kept record later.records := by
  obtain ⟨old, hold, hread⟩ := parseChain_ok h
  obtain ⟨all, hall, hlater⟩ := parseChain_ok hlater
  obtain ⟨old', new, hold', hnew, rfl⟩ := stateRecords_append hall
  rw [hold] at hold'
  cases hold'
  rcases hread with ⟨-, hempty⟩ | ⟨byDigest, root, hmem, hroot, hwalk⟩
  · rw [hempty]
    intro record hmem
    cases hmem
  · rcases hlater with ⟨hnone, -⟩ | ⟨byDigest', root', hmem', hroot', hwalk'⟩
    · have hfirst : root ∈ children byDigest none := by
        rw [hroot]
        exact mem_singleton_self _
      have := (hmem root).mp (List.mem_filter.mp hfirst).1
      rw [(List.append_eq_nil_iff.mp hnone).1] at this
      cases this
    · have hsub : byDigest ⊆ byDigest' := by
        intro record hrecord
        exact (hmem' record).mpr (mem_append_left _ ((hmem record).mp hrecord))
      have hroots := children_subset hsub none
      rw [hroot, hroot'] at hroots
      obtain rfl : root = root' := by simpa using hroots
      refine hwalk.kept hwalk' .nil hsub ?_
      intro other hother hfresh
      rcases List.mem_append.mp ((hmem' other).mp hother) with hknown | hother
      · exact absurd ((hmem other).mpr hknown) hfresh
      · obtain ⟨comment, hcomment, hparsed⟩ := mem_stateRecords hnew hother
        exact hadded comment hcomment other hparsed

end

end

end NilsCli.Review
