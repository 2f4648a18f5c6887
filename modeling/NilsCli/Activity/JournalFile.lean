import NilsCli.Activity.Journal

/-!
# The journal as a file

`append_journal_entry` reads the file leniently: what is no entry is skipped, and gone once it
writes.
-/

namespace NilsCli.Activity

open Lib List

structure StoredLine where
  bytes : Nat
  parsed : Option JournalEntry

/-- A journal file: `text` if it is UTF-8, `terminated` if its last byte is a newline. -/
structure JournalFile where
  lines : List StoredLine
  terminated : Bool
  text : Bool

def JournalEntry.stored (entry : JournalEntry) : JournalEntry :=
  { entry with event := { entry.event with
      attentionCorrelationAmbiguous := false
      attentionCorrelationExact := false } }

/-- What entries are told apart by. -/
def JournalEntry.key (entry : JournalEntry) : String × String :=
  (entry.event.runtimeId, entry.event.eventId)

@[simp]
theorem JournalEntry.key_stored (entry : JournalEntry) : entry.stored.key = entry.key := rfl

section
variable (lineBytes : JournalEntry → Nat)

/-- The line that is written for an entry. -/
def writtenLine (entry : JournalEntry) : StoredLine := ⟨lineBytes entry, some entry⟩

/-- `write_atomic` with the rendered entries. -/
def writtenFile (entries : List JournalEntry) : JournalFile :=
  ⟨entries.map (writtenLine lineBytes), true, true⟩

/-- The entries that the writer finds in the file. -/
def fileEntries : Option JournalFile → List JournalEntry
  | none => []
  | some file => file.lines.filterMap (·.parsed)

/-- `retained_entries`. -/
def readJournal : Option JournalFile → Option (List JournalEntry)
  | none => none
  | some file =>
    if file.lines = [] ∨ (file.lines.map (·.bytes)).sum > maxJournalBytes ∨ ¬ file.terminated ∨
        ¬ file.text ∨ file.lines.length > maxJournalEvents then none
    else file.lines.mapM (·.parsed)

/-- `append_journal_entry`; `none` is its error. -/
def appendToFile (file : Option JournalFile) (entry : JournalEntry) :
    Option (Option JournalFile) :=
  if file.any (!·.text) then none
  else if (fileEntries file).any (·.key = entry.key) then some file
  else some (some (writtenFile lineBytes
    (boundedJournal lineBytes (fileEntries file ++ [entry.stored]))))

def appendAll (file : Option JournalFile) : List JournalEntry → Option JournalFile
  | [] => file
  | entry :: entries => appendAll ((appendToFile lineBytes file entry).getD file) entries

def accepted (file : Option JournalFile) : List JournalEntry → List JournalEntry
  | [] => []
  | entry :: entries =>
    let rest := accepted ((appendToFile lineBytes file entry).getD file) entries
    if file.any (!·.text) ∨ (fileEntries file).any (·.key = entry.key) then rest
    else entry.stored :: rest

/-! ## What one append leaves -/

def Within (entries : List JournalEntry) : Prop :=
  entries.length ≤ maxJournalEvents ∧
    ((entries.map lineBytes).sum ≤ maxJournalBytes ∨ entries.length ≤ 1)

instance : DecidablePred (Within lineBytes) := fun entries => by
  unfold Within
  infer_instance

variable {lineBytes} {file : Option JournalFile} {entry : JournalEntry}
  {entries more : List JournalEntry}

theorem boundedJournal_eq : boundedJournal lineBytes entries = kept (Within lineBytes) entries :=
  (kept_length_and maxJournalEvents
    (fun entries => (entries.map lineBytes).sum ≤ maxJournalBytes ∨ entries.length ≤ 1)
    entries).symm

theorem Within.of_append (h : Within lineBytes (entries ++ more)) : Within lineBytes entries := by
  obtain ⟨hlength, hbytes⟩ := h
  rw [length_append] at hlength hbytes
  rw [map_append, sum_append] at hbytes
  exact ⟨by omega, by omega⟩

@[simp]
theorem fileEntries_writtenFile : fileEntries (some (writtenFile lineBytes entries)) = entries := by
  simp [fileEntries, writtenFile, writtenLine, filterMap_map, Function.comp_def]

/-- An append fails, finds its key, or writes. -/
theorem append_cases (lineBytes : JournalEntry → Nat) (file : Option JournalFile)
    (entry : JournalEntry) :
    ((file.any (!·.text) ∨ entry.key ∈ (fileEntries file).map (·.key)) ∧
        (appendToFile lineBytes file entry).getD file = file ∧
        ∀ entries, accepted lineBytes file (entry :: entries) = accepted lineBytes file entries) ∨
      (entry.key ∉ (fileEntries file).map (·.key) ∧
        ∃ written, written = some (writtenFile lineBytes
            (kept (Within lineBytes) (fileEntries file ++ [entry.stored]))) ∧
          (appendToFile lineBytes file entry).getD file = written ∧
          ∀ entries, accepted lineBytes file (entry :: entries) =
            entry.stored :: accepted lineBytes written entries) := by
  have hkey : (fileEntries file).any (·.key = entry.key) ↔
      entry.key ∈ (fileEntries file).map (·.key) := by simp
  by_cases htext : file.any (!·.text)
  · have hsame : (appendToFile lineBytes file entry).getD file = file := by
      simp [appendToFile, htext]
    refine .inl ⟨.inl htext, hsame, fun entries => ?_⟩
    rw [accepted, hsame, if_pos (.inl htext)]
  · by_cases hfound : (fileEntries file).any (·.key = entry.key)
    · have hsame : (appendToFile lineBytes file entry).getD file = file := by
        rw [appendToFile, if_neg htext, if_pos hfound, Option.getD_some]
      refine .inl ⟨.inr (hkey.mp hfound), hsame, fun entries => ?_⟩
      rw [accepted, hsame, if_pos (.inr hfound)]
    · have hwritten : (appendToFile lineBytes file entry).getD file = some (writtenFile lineBytes
          (kept (Within lineBytes) (fileEntries file ++ [entry.stored]))) := by
        rw [appendToFile, if_neg htext, if_neg hfound, Option.getD_some, boundedJournal_eq]
      refine .inr ⟨fun hmem => hfound (hkey.mpr hmem), _, rfl, hwritten, fun entries => ?_⟩
      rw [accepted, hwritten, if_neg (by rintro (h | h) <;> contradiction)]

/-! ## A sequence of appends -/

theorem appendAll_eq (lineBytes : JournalEntry → Nat) (file : Option JournalFile)
    (entries : List JournalEntry) :
    (accepted lineBytes file entries = [] → appendAll lineBytes file entries = file) ∧
      (accepted lineBytes file entries ≠ [] → appendAll lineBytes file entries =
        some (writtenFile lineBytes
          (kept (Within lineBytes) (fileEntries file ++ accepted lineBytes file entries)))) := by
  induction entries generalizing file with
  | nil => exact ⟨fun _ => rfl, fun h => absurd rfl h⟩
  | cons entry entries ih =>
    rw [appendAll]
    rcases append_cases lineBytes file entry with
      ⟨-, hsame, haccepted⟩ | ⟨-, written, hfile, hsame, haccepted⟩
    · rw [hsame, haccepted]
      exact ih file
    · rw [hsame, haccepted]
      obtain ⟨hnone, hsome⟩ := ih written
      refine ⟨(by intro h; cases h), fun _ => ?_⟩
      by_cases hrest : accepted lineBytes written entries = []
      · rw [hrest, hnone hrest, hfile]
      · rw [hsome hrest, hfile, fileEntries_writtenFile, kept_kept_append fun _ _ h => h.of_append,
          append_assoc, singleton_append]

theorem appendAll_append (entries more : List JournalEntry) :
    appendAll lineBytes file (entries ++ more) =
      appendAll lineBytes (appendAll lineBytes file entries) more := by
  induction entries generalizing file with
  | nil => rfl
  | cons entry entries ih => exact ih

theorem keys_nodup (h : ((fileEntries file).map (·.key)).Nodup) (entries : List JournalEntry) :
    ((fileEntries (appendAll lineBytes file entries)).map (·.key)).Nodup := by
  induction entries generalizing file with
  | nil => exact h
  | cons entry entries ih =>
    rw [appendAll]
    rcases append_cases lineBytes file entry with
      ⟨-, hsame, -⟩ | ⟨hnew, written, hfile, hsame, -⟩
    · rw [hsame]
      exact ih h
    · rw [hsame]
      refine ih ?_
      rw [hfile, fileEntries_writtenFile]
      refine List.Nodup.sublist ((kept_suffix _ _).sublist.map _) ?_
      rw [map_append, nodup_append]
      refine ⟨h, nodup_singleton _, ?_⟩
      rintro key hkey _ hlast rfl
      rw [map_singleton, mem_singleton, JournalEntry.key_stored] at hlast
      exact hnew (hlast ▸ hkey)

/-! ## Reading -/

theorem readJournal_written {last : JournalEntry} (hentries : entries.getLast? = some last)
    (hlast : lineBytes last ≤ maxJournalBytes) :
    readJournal (some (writtenFile lineBytes (kept (Within lineBytes) entries))) =
        some (kept (Within lineBytes) entries) ∧
      (kept (Within lineBytes) entries).length ≤ maxJournalEvents ∧
      ((kept (Within lineBytes) entries).map lineBytes).sum ≤ maxJournalBytes := by
  have hfits : Within lineBytes (kept (Within lineBytes) entries) :=
    fits_kept ⟨Nat.zero_le _, .inl (Nat.zero_le _)⟩ entries
  have hone : [last] <:+ entries := by
    obtain ⟨init, rfl⟩ := getLast?_eq_some_iff.mp hentries
    exact suffix_append init [last]
  -- the last entry alone is within the bounds, so what is kept ends in it
  have hpositive : 1 ≤ (kept (Within lineBytes) entries).length :=
    length_le_length_kept hone ⟨by simp [maxJournalEvents], .inr le_rfl⟩
  have hsum : ((kept (Within lineBytes) entries).map lineBytes).sum ≤ maxJournalBytes := by
    rcases hfits.2 with hsum | hsingle
    · exact hsum
    · have hsuffix : [last] = kept (Within lineBytes) entries :=
        (suffix_of_suffix_length_le hone (kept_suffix _ _)
          hpositive).eq_of_length (by simp; omega)
      rw [← hsuffix]
      simpa using hlast
  refine ⟨?_, hfits.1, hsum⟩
  have hlines : (kept (Within lineBytes) entries).map (writtenLine lineBytes) ≠ [] := by
    intro hnil
    rw [map_eq_nil_iff] at hnil
    simp [hnil] at hpositive
  have hbytes : (((kept (Within lineBytes) entries).map (writtenLine lineBytes)).map
      (·.bytes)).sum ≤ maxJournalBytes := by
    simpa [writtenLine, Function.comp_def] using hsum
  unfold readJournal
  dsimp only [writtenFile]
  have hreadable : ¬ ((kept (Within lineBytes) entries).map (writtenLine lineBytes) = [] ∨
      (((kept (Within lineBytes) entries).map (writtenLine lineBytes)).map (·.bytes)).sum >
        maxJournalBytes ∨ ¬ true ∨ ¬ true ∨
      ((kept (Within lineBytes) entries).map (writtenLine lineBytes)).length >
        maxJournalEvents) := by
    rw [length_map]
    rintro (h | h | h | h | h)
    · exact hlines h
    · omega
    · exact h rfl
    · exact h rfl
    · exact absurd hfits.1 (by omega)
  rw [if_neg hreadable, mapM_map]
  have hparsed := mapM_pure (m := Option) (l := kept (Within lineBytes) entries) (f := id)
  rw [map_id] at hparsed
  exact hparsed

/-- Entries that fit both bounds of the reader. -/
def FitsBoth (lineBytes : JournalEntry → Nat) (entries : List JournalEntry) : Prop :=
  entries.length ≤ maxJournalEvents ∧ (entries.map lineBytes).sum ≤ maxJournalBytes

/-- The suffix of `all` that fits both bounds and is no shorter than any other that does. -/
def NewestSuffix (lineBytes : JournalEntry → Nat) (retained all : List JournalEntry) : Prop :=
  retained <:+ all ∧ FitsBoth lineBytes retained ∧
    ∀ suffix, suffix <:+ all → FitsBoth lineBytes suffix → suffix.length ≤ retained.length

/-- What a sequence of appends leaves of any file. -/
theorem journal_newest_suffix (lineBytes : JournalEntry → Nat) (file : Option JournalFile)
    (entries : List JournalEntry) :
    (accepted lineBytes file entries = [] → appendAll lineBytes file entries = file) ∧
      (∀ last, (accepted lineBytes file entries).getLast? = some last →
        lineBytes last ≤ maxJournalBytes →
        ∃ retained, readJournal (appendAll lineBytes file entries) = some retained ∧
          NewestSuffix lineBytes retained
            (fileEntries file ++ accepted lineBytes file entries)) ∧
      (((fileEntries file).map (·.key)).Nodup →
        ((fileEntries (appendAll lineBytes file entries)).map (·.key)).Nodup) ∧
      ∀ entry, entry.key ∈ (fileEntries (appendAll lineBytes file entries)).map (·.key) →
        appendAll lineBytes file (entries ++ [entry]) = appendAll lineBytes file entries := by
  obtain ⟨hnone, hsome⟩ := appendAll_eq lineBytes file entries
  refine ⟨hnone, ?_, fun h => keys_nodup h entries, ?_⟩
  · intro last hlast hbytes
    have hwritten : accepted lineBytes file entries ≠ [] := by
      intro hnil
      rw [hnil] at hlast
      cases hlast
    have hall : (fileEntries file ++ accepted lineBytes file entries).getLast? = some last := by
      rw [List.getLast?_append, hlast]
      rfl
    obtain ⟨hread, hlength, hsum⟩ := readJournal_written hall hbytes
    rw [hsome hwritten]
    refine ⟨_, hread, kept_suffix _ _, ⟨hlength, hsum⟩, fun suffix hsuffix hfits => ?_⟩
    exact length_le_length_kept hsuffix ⟨hfits.1, .inl hfits.2⟩
  · intro entry hkey
    rw [appendAll_append]
    rcases append_cases lineBytes (appendAll lineBytes file entries) entry with ⟨-, hsame, -⟩ | ⟨hnew, -⟩
    · exact hsame
    · exact absurd hkey hnew

end

/-! ## A file that is not repaired -/

def sampleJournalEntry : JournalEntry where
  receivedAt := 0
  event := {
    eventId := "e1"
    runtimeId := "r1"
    provider := .claude
    providerSessionId := none
    providerTurnId := none
    kind := .progress
    completionCandidate := false
    completionCandidateReason := none
    failureReason := none
    attentionId := none
    attentionKind := none
    attentionCorrelationAmbiguous := false
    attentionCorrelationExact := false
    confidence := .observed
    sourceKind := .providerHook }
  applied := some true

/-- An entry beside a line that is none. -/
def damagedJournal : JournalFile :=
  ⟨[⟨2, none⟩, writtenLine (fun _ => 300) sampleJournalEntry], true, true⟩

/-- The entry is there already, so the line beside it stays and the reader refuses the file. -/
theorem damaged_stays_unreadable : ¬ ∀ (lineBytes : JournalEntry → Nat) (file : Option JournalFile)
    (entries : List JournalEntry), entries ≠ [] → (∀ entry, lineBytes entry ≤ maxJournalBytes) →
      ∃ retained, readJournal (appendAll lineBytes file entries) = some retained ∧
        NewestSuffix lineBytes retained (fileEntries file ++ accepted lineBytes file entries) := by
  intro hclaim
  obtain ⟨retained, hread, -⟩ := hclaim (fun _ => 300) (some damagedJournal) [sampleJournalEntry]
    (by simp) (fun _ => by decide)
  have hnone : readJournal (appendAll (fun _ => 300) (some damagedJournal) [sampleJournalEntry]) =
      none := by decide
  rw [hnone] at hread
  cases hread

end NilsCli.Activity
