import NilsCli.Lib.Json
import NilsCli.Lib.Transition
import NilsCli.Board.Retained

/-!
# Catching up on closed sessions

The calls of any number of processes on one ledger file, one after another, with everything that was
ever appended and every cursor that was ever returned (`ledgerSystem`).
-/

namespace NilsCli.Board

open Lib Coordination List

variable {now' : Timestamp} {ids : List String} {e : CliError} {page : ClosedPage}
  {es' : List Entry}

variable {α : Type} {generated closedAt : Timestamp} {since : Option String} {machine : String}
  {record : Value} {es : List Entry}

variable {codec : LedgerCodec}

/-! ## The system -/

structure Returned where
  cursor : String
  ledgerId : String
  position : Nat

structure World where
  file : Option (List UInt8)
  /-- The clock. -/
  now : Timestamp
  /-- The ledger ids that were generated. -/
  ids : List String
  appended : List Closed
  returned : List Returned

/-- What the calls of the interface do. -/
inductive Call
  | append (closedAt after : Timestamp) (record : Value)
  | headCursor
  | readSince (generated : Timestamp) (since : Option String) (machine : String)

namespace Call

/-- The file after a call. -/
def file (codec : LedgerCodec) (fresh : String) (now : Timestamp) (world : World) :
    Call → Option (List UInt8)
  | append closedAt after record =>
    (Board.append codec fresh now closedAt after record world.file).file
  | headCursor => (Board.headCursor codec fresh now world.file).file
  | readSince generated since machine =>
    (Board.readSince codec fresh now generated since machine world.file).file

/-- The ledger that a call writes. -/
def written (codec : LedgerCodec) (fresh : String) (now : Timestamp) (world : World) :
    Call → Option Ledger
  | append closedAt after record =>
    (Board.append codec fresh now closedAt after record world.file).written
  | headCursor => (Board.headCursor codec fresh now world.file).written
  | readSince generated since machine =>
    (Board.readSince codec fresh now generated since machine world.file).written

/-- The record that a call appends. -/
def appends (codec : LedgerCodec) (fresh : String) (now : Timestamp) (world : World) :
    Call → List Closed
  | append closedAt after record =>
    match (Board.append codec fresh now closedAt after record world.file).result with
    | .ok () =>
      let ledger := seenLedger codec fresh now world.file
      [⟨ledger.ledgerId, ledger.lastSeq + 1, closedRecord codec closedAt record⟩]
    | .error _ => []
  | headCursor => []
  | readSince _ _ _ => []

/-- The cursors that a call returns. -/
def returns (codec : LedgerCodec) (fresh : String) (now : Timestamp) (world : World) :
    Call → List Returned
  | append _ _ _ => []
  | headCursor =>
    match (Board.headCursor codec fresh now world.file).result with
    | .ok c => [⟨c, (seenLedger codec fresh now world.file).ledgerId, world.appended.length⟩]
    | .error _ => []
  | readSince generated since machine =>
    match (Board.readSince codec fresh now generated since machine world.file).result with
    | .ok page =>
      let ledgerId := (seenLedger codec fresh now world.file).ledgerId
      ⟨page.nextCursor, ledgerId, world.appended.length⟩ ::
        page.entries.map fun e => ⟨e.cursor, ledgerId, behind world.appended e.cursor⟩
    | .error _ => []

/-- The clock after a call. -/
def ends (now : Timestamp) : Call → Timestamp
  | append _ after _ => after
  | _ => now

def Admissible (codec : LedgerCodec) (now : Timestamp) : Call → Prop
  | append closedAt after record =>
    now.nanos ≤ closedAt.nanos ∧ closedAt.nanos ≤ after.nanos ∧ record.IsObject ∧
      codec.storable (closedRecord codec closedAt record)
  | _ => True

/-- The world after a call. -/
def after (codec : LedgerCodec) (fresh : String) (now : Timestamp) (world : World) (call : Call) :
    World where
  file := call.file codec fresh now world
  now := call.ends now
  ids := fresh :: world.ids
  appended := world.appended ++ call.appends codec fresh now world
  returned := world.returned ++ call.returns codec fresh now world

end Call

/-- An id that was not generated before. -/
def FreshLedgerId (codec : LedgerCodec) (world : World) (fresh : String) : Prop :=
  Hyphenated codec fresh ∧ fresh ∉ world.ids

inductive LedgerLabel
  | call (fresh : String) (now : Timestamp) (call : Call)
  | corrupt (file : Option (List UInt8))

inductive LedgerStep (codec : LedgerCodec) : LedgerLabel → World → World → Prop
  | call {world : World} {fresh : String} {now : Timestamp} (call : Call)
      (hfresh : FreshLedgerId codec world fresh) (hnow : world.now.nanos ≤ now.nanos)
      (hcall : call.Admissible codec now) :
      LedgerStep codec (.call fresh now call) world (call.after codec fresh now world)
  | corrupt {world : World} (file : Option (List UInt8))
      (hfile : ∀ ledger, readLedger codec file ≠ .present ledger) :
      LedgerStep codec (.corrupt file) world { world with file }

def ledgerSystem (codec : LedgerCodec) : Lts where
  State := World
  Label := LedgerLabel
  init world := (∀ ledger, readLedger codec world.file ≠ .present ledger) ∧ world.ids = [] ∧
    world.appended = [] ∧ world.returned = []
  step := LedgerStep codec

/-! ## Reachable ledgers -/

structure Current (codec : LedgerCodec) (world : World) (before log : List Closed)
    (ledger : Ledger) : Prop where
  appended : world.appended = before ++ log
  holds : Holds codec world.now before log ledger
  known : ledger.ledgerId ∈ world.ids
  positions : ∀ r ∈ world.returned, r.ledgerId = ledger.ledgerId →
    ∃ seq ≤ log.length, r.cursor = cursor ledger.ledgerId seq ∧ r.position = before.length + seq

/-- What holds of every reachable world. -/
structure Coherent (codec : LedgerCodec) (world : World) : Prop where
  current : ∀ ledger, readLedger codec world.file = .present ledger →
    ∃ before log, Current codec world before log ledger
  appended : ∀ c ∈ world.appended,
    Hyphenated codec c.ledgerId ∧ c.seq ≤ u64Max ∧ c.ledgerId ∈ world.ids
  returned : ∀ r ∈ world.returned,
    r.ledgerId ∈ world.ids ∧ ∃ seq, parseCursor codec r.cursor = some (r.ledgerId, seq)

section
variable {world : World} {fresh : String} {now : Timestamp} {before log : List Closed}
  {ledger : Ledger}

variable (h : Coherent codec world) (hfresh : FreshLedgerId codec world fresh)
  (hnow : world.now.nanos ≤ now.nanos)

theorem Current.mono
    (h : Current codec world before log ledger) (hnow : world.now.nanos ≤ now'.nanos)
    (hids : ∀ id ∈ world.ids, id ∈ ids) {file : Option (List UInt8)} :
    Current codec { world with file, now := now', ids } before log ledger :=
  ⟨h.appended, h.holds.mono hnow, hids _ h.known, h.positions⟩

theorem openLedger_of_present (h : readLedger codec world.file = .present ledger) :
    openLedger codec fresh world.file = ⟨ledger, false, world.file⟩ := by
  rw [openLedger, h]

theorem openLedger_of_absent {file : Option (List UInt8)}
    (h : ∀ ledger, readLedger codec file ≠ .present ledger) :
    openLedger codec fresh file = ⟨.empty fresh, true, none⟩ := by
  rw [openLedger]
  cases hload : readLedger codec file with
  | present ledger => exact absurd hload (h ledger)
  | missing => rfl
  | replaceable => rfl

theorem present_of_opened {file : Option (List UInt8)}
    (h : readLedger codec (openLedger codec fresh file).file = .present ledger) :
    readLedger codec file = .present ledger := by
  by_cases habsent : ∀ ledger, readLedger codec file ≠ .present ledger
  · rw [openLedger_of_absent habsent] at h
    simp [readLedger] at h
  · push Not at habsent
    obtain ⟨ledger', hload⟩ := habsent
    rw [openLedger, hload] at h
    exact h

include h hfresh hnow in
theorem Coherent.seen :
    ∃ before log, Current codec { world with now, ids := fresh :: world.ids } before log
      (seenLedger codec fresh now world.file) := by
  suffices hopened : ∃ before log,
      Current codec { world with now, ids := fresh :: world.ids } before log
        (openLedger codec fresh world.file).ledger by
    obtain ⟨before, log, hc⟩ := hopened
    refine ⟨before, log, hc.appended, ?_, ?_, ?_⟩
    · rw [seenLedger]
      exact hc.holds.prune _
    · rw [seenLedger, Ledger.prune_ledgerId]
      exact hc.known
    · rw [seenLedger, Ledger.prune_ledgerId]
      exact hc.positions
  by_cases habsent : ∀ ledger, readLedger codec world.file ≠ .present ledger
  · rw [openLedger_of_absent habsent]
    refine ⟨world.appended, [], (append_nil _).symm, .empty hfresh.1 ?_, by simp [Ledger.empty],
      ?_⟩
    · rintro c hc rfl
      exact hfresh.2 (h.appended c hc).2.2
    · rintro r hr heq
      exact absurd ((show r.ledgerId = fresh from heq) ▸ (h.returned r hr).1) hfresh.2
  · push Not at habsent
    obtain ⟨ledger, hload⟩ := habsent
    rw [openLedger_of_present hload]
    obtain ⟨before, log, hc⟩ := h.current ledger hload
    exact ⟨before, log, hc.mono hnow (fun id hid => mem_cons_of_mem _ hid)⟩

/-! ## One call -/

theorem few_seenLedger (file : Option (List UInt8)) :
    (seenLedger codec fresh now file).entries.length ≤ maxEntries := by
  rw [seenLedger, Ledger.prune_entries]
  exact Holds.length_prunedEntries _ _

theorem withLedger_error {operate : Ledger → Except CliError (α × Ledger × Bool)}
    {file : Option (List UInt8)} (h : operate (seenLedger codec fresh now file) = .error e) :
    withLedger codec fresh now operate file = ⟨.error e, (openLedger codec fresh file).file, none⟩ := by
  rw [seenLedger] at h
  rw [withLedger]
  simp only [h]

/-- An operation that changes the ledger writes it. -/
theorem withLedger_write {operate : Ledger → Except CliError (α × Ledger × Bool)}
    {file : Option (List UInt8)} {value : α} {ledger : Ledger}
    (h : operate (seenLedger codec fresh now file) = .ok (value, ledger, true)) :
    withLedger codec fresh now operate file =
      ⟨.ok value, some (codec.toVecPretty ledger), some ledger⟩ := by
  rw [seenLedger] at h
  rw [withLedger]
  simp only [h, Bool.or_true, if_true]

theorem withLedger_query {operate : Ledger → Except CliError (α × Ledger × Bool)}
    {file : Option (List UInt8)} {value : α} (h : operate (seenLedger codec fresh now file) =
      .ok (value, seenLedger codec fresh now file, false))
    (hread : readLedger codec (some (codec.toVecPretty (seenLedger codec fresh now file))) =
      .present (seenLedger codec fresh now file)) :
    (withLedger codec fresh now operate file).result = .ok value ∧
      readLedger codec (withLedger codec fresh now operate file).file =
        .present (seenLedger codec fresh now file) ∧
      ∀ ledger, (withLedger codec fresh now operate file).written = some ledger →
        ledger = seenLedger codec fresh now file := by
  rw [seenLedger] at h hread ⊢
  unfold withLedger
  simp only [h, Bool.or_false]
  split
  next => exact ⟨rfl, hread, fun ledger hl => (Option.some.inj hl).symm⟩
  next hsame =>
    -- the file held the ledger, and nothing was pruned
    refine ⟨rfl, ?_, fun ledger hl => by cases hl⟩
    rw [Bool.not_eq_true, Bool.or_eq_false_iff] at hsame
    by_cases habsent : ∀ ledger, readLedger codec file ≠ .present ledger
    · rw [openLedger_of_absent habsent] at hsame
      exact absurd hsame.1 (by simp)
    · push Not at habsent
      obtain ⟨ledger, hload⟩ := habsent
      have hopened : openLedger codec fresh file = ⟨ledger, false, file⟩ := by
        rw [openLedger, hload]
      have hentries : Ledger.prunedEntries codec now.asSecond ledger.entries = ledger.entries := by
        have hlength := hsame.2
        rw [hopened, Ledger.prune] at hlength
        refine List.Sublist.eq_of_length ?_ (by simpa using hlength)
        exact (drop_sublist _ _).trans filter_sublist
      have hsame : (ledger.prune codec now.asSecond).1 = ledger := by
        simp only [Ledger.prune, hentries]
      rw [hopened, hsame]
      exact hload

theorem Holds.nextCursor_eq (h : Holds codec now before log ledger) (machine : String)
    (generated : Timestamp) (seq : Nat) :
    (closedPage codec machine generated seq ledger).nextCursor = ledger.head := by
  obtain ⟨k, -, hfilter⟩ := h.filter_entries seq
  have hlast : ∀ c, (log.drop (max k seq)).getLast? = some c → c.seq = log.length := by
    intro c hc
    rw [getLast?_drop] at hc
    split at hc
    · cases hc
    · obtain ⟨i, hi, rfl⟩ := List.mem_iff_getElem.mp (mem_of_getLast? hc)
      rw [getLast?_eq_getElem?] at hc
      have hpos : log.length - 1 < log.length := by omega
      rw [List.getElem?_eq_getElem hpos] at hc
      rw [← Option.some.inj hc, h.seq_getElem hpos]
      omega
  simp only [closedPage, pageEntries, hfilter, getLast?_map, Option.map_map]
  cases hget : (log.drop (max k seq)).getLast? with
  | none => rfl
  | some c =>
    have hseq := hlast c hget
    simp only [Option.map_some, Function.comp_apply, Closed.entry, hseq, Ledger.head, h.lastSeq]

include h hfresh hnow in
theorem readSince_ok
    (hok : (readSince codec fresh now generated since machine world.file).result = .ok page) :
    (∃ seq, page = closedPage codec machine generated seq (seenLedger codec fresh now world.file)) ∧
      readLedger codec (readSince codec fresh now generated since machine world.file).file =
        .present (seenLedger codec fresh now world.file) ∧
      ∀ ledger, (readSince codec fresh now generated since machine world.file).written =
        some ledger → ledger = seenLedger codec fresh now world.file := by
  obtain ⟨before, log, hcurrent⟩ := h.seen hfresh hnow
  have hback := hcurrent.holds.readLedger_eq (few_seenLedger _)
  have hread : ∀ after,
      (withLedger codec fresh now (readEntries codec machine generated after) world.file).result =
        .ok page →
      (∃ seq, page = closedPage codec machine generated seq (seenLedger codec fresh now world.file)) ∧
        readLedger codec
            (withLedger codec fresh now (readEntries codec machine generated after) world.file).file =
          .present (seenLedger codec fresh now world.file) ∧
        ∀ ledger,
          (withLedger codec fresh now (readEntries codec machine generated after) world.file).written =
            some ledger → ledger = seenLedger codec fresh now world.file := by
    intro after hresult
    cases hseq : afterSeq after (seenLedger codec fresh now world.file) with
    | error e =>
      have hoperate : readEntries codec machine generated after
          (seenLedger codec fresh now world.file) = .error e := by rw [readEntries, hseq]
      rw [withLedger_error hoperate] at hresult
      cases hresult
    | ok seq =>
      have hoperate : readEntries codec machine generated after
          (seenLedger codec fresh now world.file) =
            .ok (closedPage codec machine generated seq (seenLedger codec fresh now world.file),
              seenLedger codec fresh now world.file, false) := by rw [readEntries, hseq]
      obtain ⟨hvalue, hfile, hwritten⟩ := withLedger_query hoperate hback
      rw [hresult] at hvalue
      exact ⟨⟨seq, Except.ok.inj hvalue⟩, hfile, hwritten⟩
  cases since with
  | none => exact hread none hok
  | some raw =>
    cases hparse : parseCursor codec raw with
    | none =>
      simp only [readSince, hparse] at hok
      cases hok
    | some after =>
      simp only [readSince, hparse] at hok ⊢
      exact hread (some after) hok

theorem readSince_error {file : Option (List UInt8)}
    (herror : (readSince codec fresh now generated since machine file).result = .error e) :
    (∀ ledger, readLedger codec (readSince codec fresh now generated since machine file).file =
      .present ledger → readLedger codec file = .present ledger) ∧
      (readSince codec fresh now generated since machine file).written = none := by
  have hread : ∀ after,
      (withLedger codec fresh now (readEntries codec machine generated after) file).result =
        .error e →
      (∀ ledger, readLedger codec
          (withLedger codec fresh now (readEntries codec machine generated after) file).file =
        .present ledger → readLedger codec file = .present ledger) ∧
        (withLedger codec fresh now (readEntries codec machine generated after) file).written =
          none := by
    intro after hresult
    cases hseq : afterSeq after (seenLedger codec fresh now file) with
    | error e =>
      have hoperate : readEntries codec machine generated after (seenLedger codec fresh now file) =
          .error e := by rw [readEntries, hseq]
      rw [withLedger_error hoperate]
      exact ⟨fun ledger hl => present_of_opened hl, rfl⟩
    | ok seq =>
      have hoperate : readEntries codec machine generated after (seenLedger codec fresh now file) =
          .ok (closedPage codec machine generated seq (seenLedger codec fresh now file),
            seenLedger codec fresh now file, false) := by rw [readEntries, hseq]
      rw [seenLedger] at hoperate
      unfold withLedger at hresult
      simp only [hoperate] at hresult
      split at hresult <;> cases hresult
  cases since with
  | none => exact hread none herror
  | some raw =>
    cases hparse : parseCursor codec raw with
    | none =>
      simp only [readSince, hparse]
      exact ⟨fun ledger hl => hl, trivial⟩
    | some after =>
      simp only [readSince, hparse] at herror ⊢
      exact hread (some after) herror

/-! ## Every call keeps the world coherent -/

theorem Coherent.unwritten (h : Coherent codec world) {file : Option (List UInt8)}
    (hnow : world.now.nanos ≤ now'.nanos) (hids : ∀ id ∈ world.ids, id ∈ ids)
    (hfile : ∀ ledger, readLedger codec file = .present ledger →
      readLedger codec world.file = .present ledger) :
    Coherent codec { world with file, now := now', ids } where
  current ledger hl := by
    obtain ⟨before, log, hcurrent⟩ := h.current ledger (hfile ledger hl)
    exact ⟨before, log, hcurrent.mono hnow hids⟩
  appended c hc := ⟨(h.appended c hc).1, (h.appended c hc).2.1, hids _ (h.appended c hc).2.2⟩
  returned r hr := ⟨hids _ (h.returned r hr).1, (h.returned r hr).2⟩

def Places (ledger : Ledger) (before log : List Closed) (rs : List Returned) : Prop :=
  ∀ r ∈ rs, r.ledgerId = ledger.ledgerId ∧
    ∃ seq ≤ log.length, r.cursor = cursor ledger.ledgerId seq ∧ r.position = before.length + seq

include h hfresh hnow in
theorem Coherent.queried {file : Option (List UInt8)} {rs : List Returned}
    (hfile : readLedger codec file = .present (seenLedger codec fresh now world.file))
    (hrs : ∀ before log, Current codec { world with now, ids := fresh :: world.ids } before log
      (seenLedger codec fresh now world.file) →
        Places (seenLedger codec fresh now world.file) before log rs) :
    Coherent codec
      { world with file, now, ids := fresh :: world.ids, returned := world.returned ++ rs } where
  current ledger hl := by
    rw [show ledger = seenLedger codec fresh now world.file from
      Loaded.present.inj (hl.symm.trans hfile)]
    obtain ⟨before, log, hcurrent⟩ := h.seen hfresh hnow
    refine ⟨before, log, hcurrent.appended, hcurrent.holds, hcurrent.known, fun r hr hid => ?_⟩
    rcases List.mem_append.mp hr with hr | hr
    · exact hcurrent.positions r hr hid
    · exact (hrs before log hcurrent r hr).2
  appended c hc :=
    ⟨(h.appended c hc).1, (h.appended c hc).2.1, mem_cons_of_mem _ (h.appended c hc).2.2⟩
  returned r hr := by
    rcases List.mem_append.mp hr with hr | hr
    · exact ⟨mem_cons_of_mem _ (h.returned r hr).1, (h.returned r hr).2⟩
    · obtain ⟨before, log, hcurrent⟩ := h.seen hfresh hnow
      obtain ⟨hid, seq, hseq, hcursor, -⟩ := hrs before log hcurrent r hr
      refine ⟨hid ▸ hcurrent.known, seq, ?_⟩
      rw [hcursor, hid]
      exact parseCursor_cursor hcurrent.holds.hyphenated (hseq.trans hcurrent.holds.small)

/-- What `append` does to the ledger that it sees. -/
theorem appendEntry_ok {after : Timestamp} {ledger : Ledger} (h : ledger.lastSeq < u64Max) :
    appendEntry codec closedAt after record ledger = .ok ((), (Ledger.prune codec after.asSecond
      { ledger with
        lastSeq := ledger.lastSeq + 1
        entries := ledger.entries ++ [(appended codec closedAt record ledger).entry] }).1, true) := by
  rw [appendEntry, if_pos h]
  rfl

theorem appendEntry_error {after : Timestamp} {ledger : Ledger} (h : ¬ ledger.lastSeq < u64Max) :
    appendEntry codec closedAt after record ledger = .error unavailable := by
  rw [appendEntry, if_neg h]

include h hfresh hnow in
theorem append_spec {after : Timestamp}
    (hcall : (Call.append closedAt after record).Admissible codec now) :
    let seen := seenLedger codec fresh now world.file
    let call := append codec fresh now closedAt after record world.file
    (∃ ledger before log, call.result = .ok () ∧ call.written = some ledger ∧
        readLedger codec call.file = .present ledger ∧
        Current codec { world with now, ids := fresh :: world.ids } before log seen ∧
        ledger.ledgerId = seen.ledgerId ∧ seen.lastSeq < u64Max ∧
        Holds codec after before (log ++ [appended codec closedAt record seen]) ledger) ∨
      (∃ e, call.result = .error e) ∧ call.written = none ∧
        ∀ ledger, readLedger codec call.file = .present ledger →
          readLedger codec world.file = .present ledger := by
  intro seen call
  obtain ⟨before, log, hcurrent⟩ := h.seen hfresh hnow
  obtain ⟨hclosed, hafter, hobject, hstorable⟩ := hcall
  by_cases hseq : seen.lastSeq < u64Max
  · left
    have hoperate : appendEntry codec closedAt after record seen = _ := appendEntry_ok hseq
    have hcall : call = _ := withLedger_write hoperate
    have hholds := (hcurrent.holds.append hclosed hafter hobject hstorable hseq).prune
      after.asSecond
    have hfew : (Ledger.prune codec after.asSecond
        { seen with
          lastSeq := seen.lastSeq + 1
          entries := seen.entries ++ [(appended codec closedAt record seen).entry] }).1.entries.length
        ≤ maxEntries := by
      rw [Ledger.prune_entries]
      exact Holds.length_prunedEntries _ _
    refine ⟨_, before, log, by rw [hcall], by rw [hcall], ?_, hcurrent, ?_, hseq, hholds⟩
    · rw [hcall]
      exact hholds.readLedger_eq hfew
    · rw [Ledger.prune_ledgerId]
  · right
    have hoperate : appendEntry codec closedAt after record seen = _ := appendEntry_error hseq
    have hcall : call = _ := withLedger_error hoperate
    rw [hcall]
    exact ⟨⟨_, rfl⟩, rfl, fun ledger hl => present_of_opened hl⟩

include h hfresh hnow in
theorem headCursor_spec :
    let seen := seenLedger codec fresh now world.file
    (headCursor codec fresh now world.file).result = .ok seen.head ∧
      readLedger codec (headCursor codec fresh now world.file).file = .present seen ∧
      ∀ ledger, (headCursor codec fresh now world.file).written = some ledger → ledger = seen := by
  obtain ⟨before, log, hcurrent⟩ := h.seen hfresh hnow
  exact withLedger_query rfl (hcurrent.holds.readLedger_eq (few_seenLedger _))

theorem Current.places_head (h : Current codec world before log ledger) :
    Places ledger before log [⟨ledger.head, ledger.ledgerId, world.appended.length⟩] := by
  intro r hr
  rw [List.mem_singleton.mp hr]
  refine ⟨rfl, log.length, Nat.le_refl _, by rw [Ledger.head, h.holds.lastSeq], ?_⟩
  rw [h.appended, length_append]

theorem Current.places_entries (h : Current codec world before log ledger)
    (hbefore : ∀ c ∈ before, Hyphenated codec c.ledgerId ∧ c.seq ≤ u64Max) (seq : Nat) :
    Places ledger before log ((pageEntries machine seq ledger).map fun e =>
      ⟨e.cursor, ledger.ledgerId, behind world.appended e.cursor⟩) := by
  intro r hr
  obtain ⟨e, he, rfl⟩ := List.mem_map.mp hr
  obtain ⟨entry, hentry, rfl⟩ := List.mem_map.mp he
  obtain ⟨c, hc, rfl⟩ := h.holds.mem_entries (List.mem_filter.mp hentry).1
  refine ⟨rfl, c.seq, (h.holds.seq_range hc).2, rfl, ?_⟩
  rw [h.appended]
  exact h.holds.behind_eq hbefore hc

include h hfresh hnow in
theorem Coherent.call {call : Call} (hcall : call.Admissible codec now) :
    Coherent codec (call.after codec fresh now world) := by
  have hids : ∀ id ∈ world.ids, id ∈ fresh :: world.ids := fun _ hid => mem_cons_of_mem _ hid
  cases call with
  | append closedAt after record =>
    have hend : world.now.nanos ≤ after.nanos := hnow.trans (hcall.1.trans hcall.2.1)
    rcases append_spec h hfresh hnow hcall with
      ⟨ledger, before, log, hok, -, hfile, hcurrent, hid, hseq, hholds⟩ | ⟨⟨e, herror⟩, -, hfile⟩
    · simp only [Call.after, Call.appends, Call.returns, hok, append_nil, Call.ends]
      refine ⟨fun ledger' hl => ?_, fun c hc => ?_, fun r hr => ?_⟩
      · rw [show ledger' = ledger from Loaded.present.inj (hl.symm.trans hfile)]
        refine ⟨before, _, ?_, hholds, by rw [hid]; exact hcurrent.known, fun r hr hrid => ?_⟩
        · rw [show world.appended = before ++ log from hcurrent.appended, append_assoc]
          rfl
        · rw [hid] at hrid ⊢
          obtain ⟨seq, hle, hcursor, hposition⟩ := hcurrent.positions r hr hrid
          refine ⟨seq, ?_, hcursor, hposition⟩
          rw [length_append]
          omega
      · rcases List.mem_append.mp hc with hc | hc
        · exact ⟨(h.appended c hc).1, (h.appended c hc).2.1, hids _ (h.appended c hc).2.2⟩
        · have hnumber : (seenLedger codec fresh now world.file).lastSeq + 1 ≤ u64Max := hseq
          rw [List.mem_singleton.mp hc]
          exact ⟨hcurrent.holds.hyphenated, hnumber, hcurrent.known⟩
      · exact ⟨hids _ (h.returned r hr).1, (h.returned r hr).2⟩
    · simp only [Call.after, Call.appends, Call.returns, herror, append_nil, Call.ends]
      exact h.unwritten hend hids hfile
  | headCursor =>
    obtain ⟨hok, hfile, -⟩ := headCursor_spec h hfresh hnow
    simp only [Call.after, Call.appends, Call.returns, hok, append_nil, Call.ends]
    refine h.queried hfresh hnow hfile fun before log hcurrent => ?_
    exact hcurrent.places_head
  | readSince generated since machine =>
    cases hresult : (readSince codec fresh now generated since machine world.file).result with
    | error e =>
      simp only [Call.after, Call.appends, Call.returns, hresult, append_nil, Call.ends]
      exact h.unwritten hnow hids (readSince_error hresult).1
    | ok page =>
      obtain ⟨⟨seq, rfl⟩, hfile, -⟩ := readSince_ok h hfresh hnow hresult
      simp only [Call.after, Call.appends, Call.returns, hresult, append_nil, Call.ends]
      refine h.queried hfresh hnow hfile fun before log hcurrent => ?_
      have hbefore : ∀ c ∈ before, Hyphenated codec c.ledgerId ∧ c.seq ≤ u64Max := by
        intro c hc
        have hmem : c ∈ world.appended := by
          rw [show world.appended = before ++ log from hcurrent.appended]
          exact mem_append_left _ hc
        exact ⟨(h.appended c hmem).1, (h.appended c hmem).2.1⟩
      intro r hr
      rcases List.mem_cons.mp hr with rfl | hr
      · have hplace := hcurrent.places_head _ (List.mem_singleton.mpr rfl)
        rw [← hcurrent.holds.nextCursor_eq machine generated seq] at hplace
        exact hplace
      · exact hcurrent.places_entries hbefore seq r hr

theorem coherent_of_reach (h : (ledgerSystem codec).Reach world) : Coherent codec world := by
  refine Lts.Reach.invariant (I := Coherent codec) ?_ ?_ h
  · rintro world ⟨habsent, hids, happended, hreturned⟩
    exact ⟨fun ledger hl => absurd hl (habsent ledger), by simp [happended], by simp [hreturned]⟩
  · rintro label world world' hworld hstep
    cases hstep with
    | call call hfresh hnow hcall => exact hworld.call hfresh hnow hcall
    | corrupt file hfile =>
      exact ⟨fun ledger hl => absurd hl (hfile ledger), hworld.appended, hworld.returned⟩

/-! ## No silent gap -/

def CatchesUp (codec : LedgerCodec) (fresh : String) (now generated : Timestamp) (machine : String)
    (world : World) (r : Returned) : Prop :=
  match (readSince codec fresh now generated (some r.cursor) machine world.file).result with
  | .ok page =>
    page.entries.map (·.record) =
      (world.appended.drop r.position).map fun c => stampRecord machine c.record
  | .error e =>
    e = cursorExpired ∧ ((seenLedger codec fresh now world.file).ledgerId ≠ r.ledgerId ∨
      ∃ c ∈ world.appended.drop r.position,
        c.entry ∉ (seenLedger codec fresh now world.file).entries)

theorem readSince_of_parse {file : Option (List UInt8)} {raw : String}
    {after : String × Nat} (h : parseCursor codec raw = some after) :
    readSince codec fresh now generated (some raw) machine file =
      withLedger codec fresh now (readEntries codec machine generated (some after)) file := by
  simp only [readSince, h]

include h hfresh hnow in
theorem Coherent.catchesUp {r : Returned} (hr : r ∈ world.returned)
    (generated : Timestamp) (machine : String) :
    CatchesUp codec fresh now generated machine world r := by
  obtain ⟨before, log, hcurrent⟩ := h.seen hfresh hnow
  obtain ⟨-, seq, hparse⟩ := h.returned r hr
  unfold CatchesUp
  rw [readSince_of_parse hparse]
  generalize hseen : seenLedger codec fresh now world.file = seen at hcurrent
  have hholds := hcurrent.holds
  by_cases hid : r.ledgerId = seen.ledgerId
  · obtain ⟨seq', hle, hcursor, hposition⟩ := hcurrent.positions r hr hid
    have hseq : seq' = seq := by
      have hown := parseCursor_cursor hholds.hyphenated (hle.trans hholds.small)
      rw [← hcursor, hparse] at hown
      exact (congrArg Prod.snd (Option.some.inj hown)).symm
    subst hseq
    have hdrop : world.appended.drop r.position = log.drop seq' := by
      rw [show world.appended = before ++ log from hcurrent.appended, hposition,
        drop_append, drop_eq_nil_of_le (by omega), nil_append]
      congr 1
      omega
    rw [hdrop]
    have hknown : ¬ (r.ledgerId ≠ seen.ledgerId ∨ seen.lastSeq < seq') := by
      rw [hholds.lastSeq]
      simp [hid, hle]
    by_cases hcount : (seen.entries.filter (seq' < ·.seq)).length = seen.lastSeq - seq'
    · have hoperate : readEntries codec machine generated (some (r.ledgerId, seq'))
          (seenLedger codec fresh now world.file) =
            .ok (closedPage codec machine generated seq' seen,
              seenLedger codec fresh now world.file, false) := by
        simp only [readEntries, afterSeq, hseen, if_neg hknown, hcount, ne_eq, not_true, if_false]
      have hback := hholds.readLedger_eq (hseen ▸ few_seenLedger world.file)
      rw [(withLedger_query hoperate (by rw [hseen]; exact hback)).1]
      have hentries := (hholds.complete_iff hle).mp hcount
      simp only [closedPage, pageEntries, hentries, map_map]
      rfl
    · have hoperate : readEntries codec machine generated (some (r.ledgerId, seq'))
          (seenLedger codec fresh now world.file) = .error cursorExpired := by
        simp only [readEntries, afterSeq, hseen, if_neg hknown, ne_eq, hcount, not_false_eq_true,
          if_true]
      rw [withLedger_error hoperate]
      exact ⟨rfl, .inr (hholds.missing hle hcount)⟩
  · have hoperate : readEntries codec machine generated (some (r.ledgerId, seq))
        (seenLedger codec fresh now world.file) = .error cursorExpired := by
      simp only [readEntries, afterSeq, hseen, ne_eq, hid, not_false_eq_true, true_or, if_true]
    rw [withLedger_error hoperate]
    exact ⟨rfl, .inl fun heq => hid heq.symm⟩

include h hfresh hnow in
theorem Coherent.next_read
    (hok : (readSince codec fresh now generated since machine world.file).result = .ok page)
    (fresh' : String) (now' generated' : Timestamp) (hnow' : now.nanos ≤ now'.nanos)
    (machine' : String) :
    ∃ page', (readSince codec fresh' now' generated' (some page.nextCursor) machine'
      (readSince codec fresh now generated since machine world.file).file).result = .ok page' ∧
        page'.entries = [] := by
  obtain ⟨before, log, hcurrent⟩ := h.seen hfresh hnow
  obtain ⟨⟨seq, rfl⟩, hfile, -⟩ := readSince_ok h hfresh hnow hok
  generalize (readSince codec fresh now generated since machine world.file).file = file at hfile
  generalize seenLedger codec fresh now world.file = seen at hcurrent hfile
  have hholds := hcurrent.holds
  -- the second read sees the same ledger, pruned once more
  have hseen : seenLedger codec fresh' now' file = (seen.prune codec now'.asSecond).1 := by
    rw [seenLedger, openLedger, hfile]
  have hagain := (hholds.mono hnow').prune now'.asSecond
  rw [← hseen] at hagain
  have hid : (seenLedger codec fresh' now' file).ledgerId = seen.ledgerId := by
    rw [hseen, Ledger.prune_ledgerId]
  have hempty : ((seenLedger codec fresh' now' file).entries.filter (log.length < ·.seq)) = [] := by
    obtain ⟨k, -, hfilter⟩ := hagain.filter_entries log.length
    rw [hfilter, drop_eq_nil_of_le (Nat.le_max_right _ _), map_nil]
  have hparse : parseCursor codec seen.head = some (seen.ledgerId, log.length) := by
    rw [Ledger.head, hholds.lastSeq]
    exact parseCursor_cursor hholds.hyphenated hholds.small
  have hoperate : readEntries codec machine' generated' (some (seen.ledgerId, log.length))
      (seenLedger codec fresh' now' file) =
        .ok (closedPage codec machine' generated' log.length (seenLedger codec fresh' now' file),
          seenLedger codec fresh' now' file, false) := by
    simp [readEntries, afterSeq, hid, hagain.lastSeq, hempty]
  rw [hholds.nextCursor_eq, readSince_of_parse hparse,
    (withLedger_query hoperate (hagain.readLedger_eq (few_seenLedger _))).1]
  exact ⟨_, rfl, by simp only [closedPage, pageEntries, hempty, map_nil]⟩

include h hfresh hnow in
/-- Every ledger that a call writes is read back. -/
theorem Coherent.reads_back {call : Call} (hcall : call.Admissible codec now)
    {ledger : Ledger} (hwritten : call.written codec fresh now world = some ledger) :
    readLedger codec (call.file codec fresh now world) = .present ledger := by
  cases call with
  | append closedAt after record =>
    rcases append_spec h hfresh hnow hcall with ⟨ledger', _, _, -, hw, hfile, -⟩ | ⟨-, hw, -⟩
    · rw [show ledger = ledger' from Option.some.inj (hwritten.symm.trans hw)]
      exact hfile
    · exact absurd (hwritten.symm.trans hw) (by simp)
  | headCursor =>
    obtain ⟨-, hfile, hw⟩ := headCursor_spec h hfresh hnow
    rw [hw ledger hwritten]
    exact hfile
  | readSince generated since machine =>
    cases hresult : (readSince codec fresh now generated since machine world.file).result with
    | error e =>
      exact absurd (hwritten.symm.trans (readSince_error hresult).2) (by simp)
    | ok page =>
      obtain ⟨-, hfile, hw⟩ := readSince_ok h hfresh hnow hresult
      rw [hw ledger hwritten]
      exact hfile

/-- Catching up on closed sessions has no silent gap. -/
theorem closed_catch_up (h : (ledgerSystem codec).Reach world)
    (hfresh : FreshLedgerId codec world fresh) (hnow : world.now.nanos ≤ now.nanos) :
    (∀ r ∈ world.returned, ∀ generated machine,
        CatchesUp codec fresh now generated machine world r) ∧
      (∀ since generated machine page,
        (readSince codec fresh now generated since machine world.file).result = .ok page →
          ∀ fresh' now' generated' machine', now.nanos ≤ now'.nanos →
            ∃ page', (readSince codec fresh' now' generated' (some page.nextCursor) machine'
              (readSince codec fresh now generated since machine world.file).file).result =
                .ok page' ∧ page'.entries = []) ∧
      ∀ call : Call, call.Admissible codec now → ∀ ledger,
        call.written codec fresh now world = some ledger →
          readLedger codec (call.file codec fresh now world) = .present ledger := by
  have hworld := coherent_of_reach h
  refine ⟨fun r hr generated machine => hworld.catchesUp hfresh hnow hr generated machine, ?_, ?_⟩
  · intro since generated machine page hok fresh' now' generated' machine' hnow'
    exact hworld.next_read hfresh hnow hok fresh' now' generated' hnow' machine'
  · intro call hcall ledger hwritten
    exact hworld.reads_back hfresh hnow hcall hwritten

end

/-! ## An example -/

def sampleIds : List String :=
  ["0b7cbd0c-63b7-4a0f-8a53-6f0ad9f4a8a1", "1b7cbd0c-63b7-4a0f-8a53-6f0ad9f4a8a1",
    "2b7cbd0c-63b7-4a0f-8a53-6f0ad9f4a8a1"]

def sampleRecord : Value := .object [("session_id", .string "a")]

def sampleClosed : Value :=
  .object [("session_id", .string "a"), ("closed_at", .string "1970-01-01T00:00:00Z")]

/-- The epoch, and a tally for every other time. -/
def sampleTime (t : Timestamp) : String :=
  if t.nanos = 0 then "1970-01-01T00:00:00Z"
  else .ofList (List.replicate t.nanos.toNat 'x' ++ List.replicate (-t.nanos).toNat 'y')

def sampleEntry (e : Entry) : List UInt8 :=
  ascii "\n    \x7b\n      \"seq\": " ++ (writeNat e.seq ++ [0x2c] ++
    ascii ("\n      \"record\": \x7b\n        \"session_id\": \"a\",\n" ++
      "        \"closed_at\": \"1970-01-01T00:00:00Z\"\n      \x7d\n    \x7d"))

def sampleTail : List Entry → List UInt8
  | [] => ascii "\n  ]\n\x7d"
  | e :: es => 0x2c :: (sampleEntry e ++ sampleTail es)

def sampleEntries : List Entry → List UInt8
  | [] => ascii "]\n\x7d"
  | e :: es => sampleEntry e ++ sampleTail es

def sampleText (ledger : Ledger) : List UInt8 :=
  ascii ("\x7b\n  \"schema_version\": \"agent-session.board-closed-ledger.v1\",\n" ++
    "  \"ledger_id\": \"") ++ (ascii ledger.ledgerId ++ (ascii "\",\n  \"last_seq\": " ++ (writeNat ledger.lastSeq ++ [0x2c] ++
      (ascii "\n  \"entries\": [" ++ sampleEntries ledger.entries))))

def sampleUuid (id : String) : Option String := if id ∈ sampleIds then some id else none

theorem sampleTime_injective : Function.Injective sampleTime := by
  have hcount : ∀ t, (sampleTime t).toList.count 'x' = t.nanos.toNat ∧
      (sampleTime t).toList.count 'y' = (-t.nanos).toNat := by
    intro t
    unfold sampleTime
    split
    next h => rw [h]; decide
    next => simp [count_append, count_replicate]
  intro s t h
  have hs := hcount s
  rw [h, (hcount t).1, (hcount t).2] at hs
  have hnanos : s.nanos = t.nanos := by omega
  cases s
  cases t
  simpa using hnanos

theorem delimited_number : Delimited fun n => writeNat n ++ [0x2c] :=
  delimited_token writeNat_injective writeNat_token (by decide)

theorem sampleEntry_inj {e e' : Entry} {r r' : List UInt8}
    (h : sampleEntry e ++ r = sampleEntry e' ++ r') : e.seq = e'.seq ∧ r = r' := by
  simp only [sampleEntry, append_assoc] at h
  have hnumber := append_cancel_left h
  simp only [← append_assoc (writeNat _)] at hnumber
  obtain ⟨hseq, hrest⟩ := delimited_number _ _ _ _ hnumber
  exact ⟨hseq, append_cancel_left hrest⟩

theorem sampleTail_injective (h : sampleTail es = sampleTail es') :
    es.map (·.seq) = es'.map (·.seq) := by
  induction es generalizing es' with
  | nil =>
    cases es' with
    | nil => rfl
    | cons e es' => exact absurd (congrArg head? h) (by simp [sampleTail, ascii])
  | cons e es ih =>
    cases es' with
    | nil => exact absurd (congrArg head? h) (by simp [sampleTail, ascii])
    | cons e' es' =>
      obtain ⟨hseq, hrest⟩ := sampleEntry_inj (List.cons.inj h).2
      rw [map_cons, map_cons, hseq, ih hrest]

theorem sampleEntries_injective (h : sampleEntries es = sampleEntries es') :
    es.map (·.seq) = es'.map (·.seq) := by
  cases es with
  | nil =>
    cases es' with
    | nil => rfl
    | cons e es' =>
      exact absurd (congrArg head? h) (by simp [sampleEntries, sampleEntry, ascii])
  | cons e es =>
    cases es' with
    | nil => exact absurd (congrArg head? h) (by simp [sampleEntries, sampleEntry, ascii])
    | cons e' es' =>
      obtain ⟨hseq, hrest⟩ := sampleEntry_inj h
      rw [map_cons, map_cons, hseq, sampleTail_injective hrest]

theorem mem_sampleIds {id : String} (h : sampleUuid id = some id) : id ∈ sampleIds := by
  unfold sampleUuid at h
  split at h
  next hmem => exact hmem
  next => cases h

theorem sampleText_injective {ledger ledger' : Ledger}
    (h : ledger.Bounded sampleUuid (· = sampleClosed))
    (h' : ledger'.Bounded sampleUuid (· = sampleClosed))
    (heq : sampleText ledger = sampleText ledger') : ledger = ledger' := by
  have hlength : ∀ id ∈ sampleIds, (ascii id).length = 36 := by decide
  have hascii : ∀ id ∈ sampleIds, ∀ id' ∈ sampleIds, ascii id = ascii id' → id = id' := by decide
  obtain ⟨hid, hrest⟩ := append_inj (append_cancel_left heq)
    ((hlength _ (mem_sampleIds h.id)).trans (hlength _ (mem_sampleIds h'.id)).symm)
  obtain ⟨hseq, hentries⟩ := delimited_number _ _ _ _ (append_cancel_left hrest)
  have hseqs := sampleEntries_injective (append_cancel_left hentries)
  have hsame : ledger.entries = ledger'.entries := by
    have hmap : ∀ es : List Entry, (∀ e ∈ es, e.record = sampleClosed) →
        es = (es.map (·.seq)).map fun seq => ⟨seq, sampleClosed⟩ := by
      intro es hes
      rw [map_map]
      refine (map_id es).symm.trans (map_congr_left fun e he => ?_)
      rw [← hes e he]
      rfl
    rw [hmap _ h.records, hseqs, ← hmap _ h'.records]
  have hids := hascii _ (mem_sampleIds h.id) _ (mem_sampleIds h'.id) hid
  have hschema := h.schema.trans h'.schema.symm
  cases ledger
  cases ledger'
  simp_all

theorem length_writeNat {n : Nat} (h : n ≤ u64Max) : (writeNat n).length ≤ 20 := by
  rw [writeNat, length_map, Nat.length_toDigits_le_iff (by decide) (by decide)]
  exact Nat.lt_of_le_of_lt h (by decide)

theorem length_sampleEntry {e : Entry} (h : e.seq ≤ u64Max) : (sampleEntry e).length ≤ 300 := by
  have hnumber := length_writeNat h
  have htext : (ascii ("\n      \"record\": \x7b\n        \"session_id\": \"a\",\n" ++
      "        \"closed_at\": \"1970-01-01T00:00:00Z\"\n      \x7d\n    \x7d")).length ≤ 200 := by
    decide
  have hstart : (ascii "\n    \x7b\n      \"seq\": ").length ≤ 40 := by decide
  simp only [sampleEntry, length_append, length_singleton]
  omega

theorem length_sampleTail (h : ∀ e ∈ es, e.seq ≤ u64Max) :
    (sampleTail es).length ≤ 10 + 301 * es.length := by
  induction es with
  | nil => decide
  | cons e es ih =>
    have hentry := length_sampleEntry (h e (by simp))
    have hrest := ih fun e' he' => h e' (mem_cons_of_mem _ he')
    simp only [sampleTail, length_cons, length_append]
    omega

theorem length_sampleText {ledger : Ledger} (h : ledger.Bounded sampleUuid (· = sampleClosed)) :
    (sampleText ledger).length ≤ maxLedgerBytes := by
  have hid : (ascii ledger.ledgerId).length = 36 := by
    have hlength : ∀ id ∈ sampleIds, (ascii id).length = 36 := by decide
    exact hlength _ (mem_sampleIds h.id)
  have hnumber := length_writeNat h.lastSeq
  have hentries : (sampleEntries ledger.entries).length ≤ 10 + 301 * ledger.entries.length := by
    cases hes : ledger.entries with
    | nil => decide
    | cons e es =>
      have hseqs := hes ▸ h.seqs
      have hentry := length_sampleEntry (hseqs e (by simp))
      have htail := length_sampleTail fun e' he' => hseqs e' (mem_cons_of_mem _ he')
      simp only [sampleEntries, length_cons, length_append]
      omega
  have hfirst : (ascii ("\x7b\n  \"schema_version\": \"agent-session.board-closed-ledger.v1\",\n" ++
    "  \"ledger_id\": \"")).length ≤ 100 := by decide
  have hsecond : (ascii "\",\n  \"last_seq\": ").length ≤ 40 := by decide
  have hthird : (ascii "\n  \"entries\": [").length ≤ 40 := by decide
  have hfew := h.few
  simp only [sampleText, length_append, length_singleton]
  unfold maxLedgerBytes
  unfold maxEntries at hfew
  omega

/-- Inverts an injective function. -/
noncomputable def inverse {α β : Type} (P : α → Prop) (f : α → β) (b : β) : Option α :=
  open Classical in if h : ∃ a, P a ∧ f a = b then some h.choose else none

theorem inverse_eq {β : Type} {P : α → Prop} {f : α → β}
    (hinj : ∀ a a', P a → P a' → f a = f a' → a = a') {a : α} (ha : P a) :
    inverse P f (f a) = some a := by
  have h : ∃ a', P a' ∧ f a' = f a := ⟨a, ha, rfl⟩
  rw [inverse, dif_pos h]
  exact congrArg some (hinj _ _ h.choose_spec.1 ha h.choose_spec.2)

noncomputable def sampleCodec : LedgerCodec where
  toVecPretty := sampleText
  fromSlice := inverse (Ledger.Bounded sampleUuid (· = sampleClosed)) sampleText
  parseUuid := sampleUuid
  showTimestamp := sampleTime
  parseTimestamp := inverse (fun _ => True) sampleTime
  storable := (· = sampleClosed)
  parse_show _ := inverse_eq (fun _ _ _ _ h => sampleTime_injective h) trivial
  reads_back _ h := inverse_eq (fun _ _ ha ha' heq => sampleText_injective ha ha' heq) h
  fits _ h := length_sampleText h

def epoch : Timestamp := ⟨0, by decide⟩

def sampleStart : World := ⟨none, epoch, [], [], []⟩

noncomputable def sampleWorld : World :=
  (Call.append epoch epoch sampleRecord).after sampleCodec sampleIds[1] epoch
    (Call.headCursor.after sampleCodec sampleIds[0] epoch sampleStart)

theorem hyphenated_sampleIds : ∀ id ∈ sampleIds, Hyphenated sampleCodec id := by
  intro id hid
  have hcolon : ∀ id ∈ sampleIds, ':' ∉ id.toList := by decide
  exact ⟨if_pos hid, hcolon id hid⟩

theorem closedRecord_sample : closedRecord sampleCodec epoch sampleRecord = sampleClosed := by
  simp [closedRecord, sampleRecord, sampleClosed, Value.insert, Value.insertMember, sampleCodec,
    sampleTime, epoch]

theorem reach_sampleStart : (ledgerSystem sampleCodec).Reach sampleStart :=
  .init ⟨fun ledger h => by simp [sampleStart, readLedger] at h, rfl, rfl, rfl⟩

theorem fresh_sampleStart : FreshLedgerId sampleCodec sampleStart sampleIds[0] :=
  ⟨hyphenated_sampleIds _ (by decide), by decide⟩

theorem reach_sampleHead : (ledgerSystem sampleCodec).Reach
    (Call.headCursor.after sampleCodec sampleIds[0] epoch sampleStart) :=
  reach_sampleStart.next
    (LedgerStep.call Call.headCursor fresh_sampleStart (Int.le_refl _) trivial)

theorem reach_sampleWorld : (ledgerSystem sampleCodec).Reach sampleWorld := by
  have hfresh : FreshLedgerId sampleCodec
      (Call.headCursor.after sampleCodec sampleIds[0] epoch sampleStart) sampleIds[1] := by
    refine ⟨hyphenated_sampleIds _ (by decide), ?_⟩
    have hids : sampleIds[1] ∉ [sampleIds[0]] := by decide
    exact hids
  have hcall : (Call.append epoch epoch sampleRecord).Admissible sampleCodec epoch :=
    ⟨Int.le_refl _, Int.le_refl _, trivial, closedRecord_sample⟩
  exact reach_sampleHead.next (LedgerStep.call _ hfresh (Int.le_refl _) hcall)

theorem returned_sampleWorld : ∃ r ∈ sampleWorld.returned, r.position = 0 := by
  have hnow : sampleStart.now.nanos ≤ epoch.nanos := Int.le_refl _
  have hhead := (headCursor_spec (coherent_of_reach reach_sampleStart) fresh_sampleStart hnow).1
  have hreturns : ∃ r ∈ Call.headCursor.returns sampleCodec sampleIds[0] epoch sampleStart,
      r.position = 0 := by
    simp only [Call.returns, hhead]
    exact ⟨_, List.mem_singleton.mpr rfl, rfl⟩
  obtain ⟨r, hr, hposition⟩ := hreturns
  exact ⟨r, mem_append_left _ (mem_append_right _ hr), hposition⟩

theorem closed_catch_up_sample : ∃ r ∈ sampleWorld.returned, r.position = 0 ∧
    CatchesUp sampleCodec sampleIds[2] epoch epoch "host" sampleWorld r := by
  have hfresh : FreshLedgerId sampleCodec sampleWorld sampleIds[2] := by
    refine ⟨hyphenated_sampleIds _ (by decide), ?_⟩
    have hids : sampleIds[2] ∉ [sampleIds[1], sampleIds[0]] := by decide
    exact hids
  obtain ⟨r, hr, hposition⟩ := returned_sampleWorld
  exact ⟨r, hr, hposition,
    (closed_catch_up reach_sampleWorld hfresh (Int.le_refl _)).1 r hr epoch "host"⟩

end NilsCli.Board
