import NilsCli.Activity.Ingest

/-!
# The replay tables

What the two replay tables know about the counted events. While no transaction is pending, the table
of the newest event has the keys of its window, and the other table those of the window before,
unless the newest window is complete: then the other table may have been reset for the next one
(`TablesReady`).
-/

namespace NilsCli.Activity

open Lib Lib.Durable
variable {k table : Nat} {key : DedupeKey} {slots : Slots DedupeKey} {ks : List DedupeKey}

open Coordination (CliError)

variable {codec : Codec} {store : Store}

/-! ## Windows -/

/-- The keys of the counted events, oldest first. -/
def Store.keys (store : Store) : List DedupeKey := store.counted.map (·.dedupeKey)

/-- The number of the window of an index. -/
def windowOf (eventIndex : Nat) : Nat := eventIndex / maxDedupeEvents

/-- The keys from the start of a window on. -/
def fromWindow (keys : List DedupeKey) (k : Nat) : List DedupeKey := keys.drop (k * maxDedupeEvents)

/-- The keys of one window. -/
def window (keys : List DedupeKey) (k : Nat) : List DedupeKey :=
  (fromWindow keys k).take maxDedupeEvents

/-- The last 4096 keys. -/
def recent (keys : List DedupeKey) : List DedupeKey := keys.drop (keys.length - maxDedupeEvents)

theorem mem_drop_iff_getElem? {α : Type} {xs : List α} {n : Nat} {x : α} :
    x ∈ xs.drop n ↔ ∃ i, n ≤ i ∧ xs[i]? = some x := by
  rw [List.mem_iff_getElem?]
  constructor
  · rintro ⟨i, hi⟩
    exact ⟨n + i, Nat.le_add_right n i, by rwa [List.getElem?_drop] at hi⟩
  · rintro ⟨i, hni, hi⟩
    exact ⟨i - n, by rw [List.getElem?_drop, Nat.add_sub_cancel' hni, hi]⟩

theorem mem_window_iff {keys : List DedupeKey} :
    key ∈ window keys k ↔ ∃ i, k * maxDedupeEvents ≤ i ∧ i < (k + 1) * maxDedupeEvents ∧
      keys[i]? = some key := by
  rw [window, fromWindow, Nat.add_mul, Nat.one_mul, List.mem_iff_getElem?]
  constructor
  · rintro ⟨i, hi⟩
    rw [List.getElem?_take] at hi
    split at hi
    next hlt =>
      rw [List.getElem?_drop] at hi
      exact ⟨k * maxDedupeEvents + i, Nat.le_add_right _ i, Nat.add_lt_add_left hlt _, hi⟩
    next => cases hi
  · rintro ⟨i, hstart, hlt, hi⟩
    refine ⟨i - k * maxDedupeEvents, ?_⟩
    rw [List.getElem?_take, if_pos (by omega), List.getElem?_drop, Nat.add_sub_cancel' hstart, hi]

theorem mem_recent {keys : List DedupeKey} (h : key ∈ recent keys) :
    key ∈ fromWindow keys (windowOf (keys.length - 1)) ∨
      keys.length % maxDedupeEvents ≠ 0 ∧
        ∃ k, k + 1 = windowOf (keys.length - 1) ∧ key ∈ window keys k := by
  obtain ⟨i, hi, hkey⟩ := mem_drop_iff_getElem?.mp h
  have hlt : i < keys.length := (List.getElem?_eq_some_iff.mp hkey).1
  simp only [fromWindow, mem_drop_iff_getElem?, mem_window_iff]
  by_cases hcurrent : windowOf (keys.length - 1) * maxDedupeEvents ≤ i
  · exact .inl ⟨i, hcurrent, hkey⟩
  · refine .inr ⟨?_, windowOf i, ?_, i, ?_, ?_, hkey⟩ <;>
      unfold windowOf maxDedupeEvents at * <;> omega

/-! ## What the tables have -/

def Holds (codec : Codec) (store : Store) (table : Nat) (keys : List DedupeKey) : Prop :=
  ∃ slots, store.table table = some (.table store.document.runtimeId
      store.document.runtimeGeneration slots) ∧
    Represents replaySlotCount codec.slotStart slots keys

def HoldsPrevious (codec : Codec) (store : Store) : Prop :=
  ∀ k, k + 1 = windowOf (store.keys.length - 1) → Holds codec store (k % 2) (window store.keys k)

/-- Table 0 is a table of this runtime. -/
def ZeroOpens (store : Store) : Prop :=
  ∃ slots, store.tableZero = some (.table store.document.runtimeId
    store.document.runtimeGeneration slots)

/-- No transaction is pending. -/
structure TablesReady (codec : Codec) (store : Store) : Prop where
  zero : ZeroOpens store
  current : Holds codec store (replayTable (store.keys.length - 1))
    (fromWindow store.keys (windowOf (store.keys.length - 1)))
  previous : store.keys.length % maxDedupeEvents ≠ 0 → HoldsPrevious codec store

structure TablesPending (codec : Codec) (store : Store) : Prop where
  zero : ZeroOpens store
  current : store.keys.length - 1 = 0 ∨ (store.keys.length - 1) % maxDedupeEvents ≠ 0 →
    ∃ count, (count = store.keys.length - 1 ∨ count = store.keys.length) ∧
      Holds codec store (replayTable (store.keys.length - 1))
        (fromWindow (store.keys.take count) (windowOf (store.keys.length - 1)))
  previous : HoldsPrevious codec store

structure TablesDone (codec : Codec) (store : Store) : Prop where
  zero : ZeroOpens store
  current : Holds codec store (replayTable (store.keys.length - 1))
    (fromWindow store.keys (windowOf (store.keys.length - 1)))
  previous : HoldsPrevious codec store

theorem TablesDone.ready (h : TablesDone codec store) : TablesReady codec store :=
  ⟨h.zero, h.current, fun _ => h.previous⟩

theorem TablesDone.pending (h : TablesDone codec store) : TablesPending codec store :=
  ⟨h.zero, fun _ => ⟨store.keys.length, .inr rfl, by rw [List.take_length]; exact h.current⟩,
    h.previous⟩

/-! ## Looking a key up -/

theorem slotsContain_iff {keys : List DedupeKey}
    (h : Represents replaySlotCount codec.slotStart slots keys) :
    slotsContain codec slots key ↔ key ∈ keys := by
  rw [slotsContain, decide_eq_true_eq]
  exact probe_eq_found_iff h (by decide)

theorem openReplayIndex_table (document : Document) (slots : Slots DedupeKey) :
    openReplayIndex document
      (some (.table document.runtimeId document.runtimeGeneration slots)) = .ok slots := by
  simp [openReplayIndex]

theorem selfHeals_of_openReplayIndex {document : Document} {file : Option ReplayFile}
    {error : CliError} (h : openReplayIndex document file = .error error) :
    replayTableOneSelfHeals error := by
  unfold openReplayIndex at h
  split at h
  · cases h; decide
  · cases h; decide
  · cases h; decide
  · split at h
    · cases h
    · cases h; decide

/-- What the second table says. -/
def tableOneContains (codec : Codec) (store : Store) (key : DedupeKey) : Bool :=
  match openReplayIndex store.document store.tableOne with
  | .ok slots => slotsContain codec slots key
  | .error _ => false

theorem replayContains_run (key : DedupeKey)
    (hzero : store.tableZero = some (.table store.document.runtimeId
      store.document.runtimeGeneration slots)) :
    replayContains codec key store = ([], .ok (slotsContain codec slots key ||
      (decide (maxDedupeEvents < store.document.seenEventCount) &&
        tableOneContains codec store key))) := by
  have hopen : openTableZero store = ([], .ok slots) := by
    rw [openTableZero, load_bind_apply]
    simp only [hzero, Bool.false_eq_true, false_and, if_false, openReplayIndex_table]
    rfl
  rw [replayContains, bind_apply_of_eq hopen]
  by_cases hseen : slotsContain codec slots key
  · simp only [hseen, if_true, Bool.true_or]
    rfl
  · simp only [hseen, Bool.false_eq_true, if_false, Bool.false_or]
    rw [load_bind_apply]
    by_cases hcount : store.document.seenEventCount ≤ maxDedupeEvents
    · simp only [if_pos hcount, decide_eq_false (Nat.not_lt.mpr hcount), Bool.false_and]
      rfl
    · simp only [if_neg hcount, decide_eq_true (Nat.not_le.mp hcount), Bool.true_and,
        tableOneContains]
      cases hone : openReplayIndex store.document store.tableOne with
      | ok slots => rfl
      | error error =>
        simp only [if_pos (selfHeals_of_openReplayIndex hone)]
        rfl

theorem tableOneContains_of_holds {keys : List DedupeKey}
    (h : Holds codec store 1 keys) (hkey : key ∈ keys) : tableOneContains codec store key := by
  obtain ⟨slots, htable, hrep⟩ := h
  have hone : store.tableOne = some (.table store.document.runtimeId
      store.document.runtimeGeneration slots) := htable
  rw [tableOneContains, hone, openReplayIndex_table]
  exact (slotsContain_iff hrep).mpr hkey

theorem slotsContain_of_holds {keys : List DedupeKey}
    (hzero : store.tableZero = some (.table store.document.runtimeId
      store.document.runtimeGeneration slots))
    (h : Holds codec store 0 keys) (hkey : key ∈ keys) : slotsContain codec slots key := by
  obtain ⟨slots', htable, hrep⟩ := h
  have heq : store.tableZero = some (.table store.document.runtimeId
      store.document.runtimeGeneration slots') := htable
  obtain rfl : slots = slots' := by
    have := hzero.symm.trans heq
    simpa using this
  exact (slotsContain_iff hrep).mpr hkey

theorem TablesReady.contains (h : TablesReady codec store)
    (hcount : store.document.seenEventCount = store.counted.length) (key : DedupeKey) :
    ∃ seen, replayContains codec key store = ([], .ok seen) ∧
      (key ∈ recent store.keys → seen) := by
  obtain ⟨slots, hzero⟩ := h.zero
  refine ⟨_, replayContains_run key hzero, fun hrecent => ?_⟩
  have hlen : store.keys.length = store.counted.length := List.length_map _
  -- the table of a window that has the key is consulted
  have hfound : ∀ {k : Nat} {keys : List DedupeKey}, Holds codec store (k % 2) keys →
      k ≤ windowOf (store.keys.length - 1) → key ∈ keys →
        (slotsContain codec slots key ||
          (decide (maxDedupeEvents < store.document.seenEventCount) &&
            tableOneContains codec store key)) = true := by
    intro k keys hholds hle hkey
    rcases Nat.mod_two_eq_zero_or_one k with heven | hodd
    · rw [heven] at hholds
      simp [slotsContain_of_holds hzero hholds hkey]
    · rw [hodd] at hholds
      have hlarge : maxDedupeEvents < store.document.seenEventCount := by
        rw [hcount, ← hlen]
        unfold windowOf maxDedupeEvents at *
        omega
      simp [hlarge, tableOneContains_of_holds hholds hkey]
  rcases mem_recent hrecent with hcurrent | ⟨hmod, k, hk, hprev⟩
  · exact hfound h.current (le_refl _) hcurrent
  · exact hfound (h.previous hmod k hk) (by omega) hprev

/-! ## Changing one table -/

/-- Only the tables differ. -/
def Retabled (store store' : Store) : Prop :=
  ∃ zero one, store' = { store with tableZero := zero, tableOne := one }

theorem Retabled.refl (store : Store) : Retabled store store := ⟨_, _, rfl⟩

theorem Retabled.setTable {store' : Store} (h : Retabled store store') (table : Nat)
    (file : ReplayFile) : Retabled store (store'.setTable table file) := by
  obtain ⟨zero, one, rfl⟩ := h
  unfold Store.setTable
  split
  · exact ⟨_, _, rfl⟩
  · exact ⟨_, _, rfl⟩

@[simp] theorem setTable_document (table : Nat) (file : ReplayFile) :
    (store.setTable table file).document = store.document := by
  unfold Store.setTable; split <;> rfl

@[simp] theorem setTable_counted (table : Nat) (file : ReplayFile) :
    (store.setTable table file).counted = store.counted := by
  unfold Store.setTable; split <;> rfl

@[simp] theorem setTable_keys (table : Nat) (file : ReplayFile) :
    (store.setTable table file).keys = store.keys := by
  rw [Store.keys, setTable_counted, Store.keys]

theorem setTable_table_self (table : Nat) (file : ReplayFile) :
    (store.setTable table file).table table = some file := by
  unfold Store.setTable Store.table
  by_cases h : table = 0
  · simp [h]
  · simp [h]

theorem setTable_table_of_ne {other : Nat} (file : ReplayFile)
    (h : ¬(table = 0 ↔ other = 0)) : (store.setTable table file).table other = store.table other := by
  unfold Store.setTable Store.table
  by_cases htable : table = 0
  · have hother : other ≠ 0 := fun hother => h (by simp [htable, hother])
    simp [htable, hother]
  · have hother : other = 0 := by
      by_contra hother
      exact h (by simp [htable, hother])
    simp [htable, hother]

/-- A table of this runtime with these slots. -/
def Store.runtimeTable (store : Store) (slots : Slots DedupeKey) : ReplayFile :=
  .table store.document.runtimeId store.document.runtimeGeneration slots

theorem ZeroOpens.setTable (h : ZeroOpens store) (table : Nat) (slots : Slots DedupeKey) :
    ZeroOpens (store.setTable table (store.runtimeTable slots)) := by
  unfold ZeroOpens
  rw [setTable_document]
  by_cases htable : table = 0
  · exact ⟨slots, htable ▸ setTable_table_self 0 _⟩
  · obtain ⟨slots', hzero⟩ := h
    refine ⟨slots', ?_⟩
    rw [← hzero]
    have hne : ¬(table = 0 ↔ 0 = 0) := by simp [htable]
    exact setTable_table_of_ne _ hne

theorem Holds.setTable_of_ne {other : Nat} {keys : List DedupeKey} (file : ReplayFile)
    (h : Holds codec store other keys) (hne : ¬(table = 0 ↔ other = 0)) :
    Holds codec (store.setTable table file) other keys := by
  obtain ⟨slots, htable, hrep⟩ := h
  refine ⟨slots, ?_, hrep⟩
  rw [setTable_table_of_ne file hne, setTable_document, htable]

theorem holds_setTable_self {keys : List DedupeKey}
    (hrep : Represents replaySlotCount codec.slotStart slots keys) :
    Holds codec (store.setTable table (store.runtimeTable slots)) table keys := by
  refine ⟨slots, ?_, hrep⟩
  rw [setTable_table_self, setTable_document]
  rfl

theorem HoldsPrevious.setTable (h : HoldsPrevious codec store) (file : ReplayFile) :
    HoldsPrevious codec (store.setTable (replayTable (store.keys.length - 1)) file) := by
  intro k hk
  rw [setTable_keys] at hk ⊢
  refine (h k hk).setTable_of_ne file ?_
  unfold replayTable
  rw [windowOf] at hk
  omega

/-! ## Inserting the key of the pending event -/

theorem openForInsert_run (h : store.table table = some (store.runtimeTable slots)) :
    openForInsert table store = ([], .ok slots) := by
  rw [openForInsert, load_bind_apply, h, Store.runtimeTable, openReplayIndex_table]
  rfl

/-- A table with fewer keys than slots is written once. -/
theorem insertOpened_run {keys : List DedupeKey} (key : DedupeKey)
    (h : Holds codec store table keys) (hlen : keys.length < replaySlotCount) :
    ∃ slots, Represents replaySlotCount codec.slotStart slots (keys ++ [key]) ∧
      insertOpened codec table key store =
        ([store.setTable table (store.runtimeTable slots)], .ok ()) := by
  obtain ⟨slots, htable, hrep⟩ := h
  obtain ⟨slots', hinsert, hrep'⟩ := hrep.insert hlen key
  refine ⟨slots', hrep', ?_⟩
  rw [insertOpened, bind_apply_of_eq (openForInsert_run htable), hinsert]
  rfl

theorem length_fromWindow_le (keys : List DedupeKey) :
    (fromWindow keys (windowOf (keys.length - 1))).length ≤ maxDedupeEvents := by
  rw [fromWindow, List.length_drop]
  unfold windowOf maxDedupeEvents
  omega

theorem fromWindow_append (keys : List DedupeKey) (key : DedupeKey) :
    fromWindow (keys ++ [key]) (windowOf keys.length) =
      fromWindow keys (windowOf keys.length) ++ [key] := by
  rw [fromWindow, List.drop_append_of_le_length, fromWindow]
  exact Nat.div_mul_le_self _ _

theorem fromWindow_eq_nil {keys : List DedupeKey} (h : keys.length % maxDedupeEvents = 0) :
    fromWindow keys (windowOf keys.length) = [] := by
  rw [fromWindow, windowOf, Nat.div_mul_cancel (Nat.dvd_of_mod_eq_zero h), List.drop_length]

theorem TablesPending.reset (h : TablesPending codec store) (hpos : store.keys.length - 1 > 0)
    (hmod : (store.keys.length - 1) % maxDedupeEvents = 0) :
    TablesPending codec (store.setTable (replayTable (store.keys.length - 1))
      (store.runtimeTable fun _ => none)) := by
  refine ⟨h.zero.setTable _ _, ?_, h.previous.setTable _⟩
  rw [setTable_keys]
  rintro (hzero | hne)
  · omega
  · exact absurd hmod hne

theorem TablesPending.insert {keys : List DedupeKey}
    (h : TablesPending codec store) (hkeys : store.keys = ks ++ [key])
    (htable : table = replayTable ks.length) (hold : Holds codec store table keys)
    (heq : keys = fromWindow ks (windowOf ks.length) ∨
      keys = fromWindow ks (windowOf ks.length) ++ [key]) :
    ∃ slots, insertOpened codec table key store =
        ([store.setTable table (store.runtimeTable slots)], .ok ()) ∧
      TablesDone codec (store.setTable table (store.runtimeTable slots)) := by
  have hlast : store.keys.length - 1 = ks.length := by simp [hkeys]
  have hle : (fromWindow ks (windowOf ks.length) ++ [key]).length ≤ maxDedupeEvents := by
    have hle := length_fromWindow_le store.keys
    rwa [hlast, hkeys, fromWindow_append] at hle
  have hlen : keys.length < replaySlotCount := by
    rcases heq with rfl | rfl
    · rw [List.length_append] at hle
      exact Nat.lt_of_le_of_lt (Nat.le_of_add_right_le hle) (by decide)
    · exact Nat.lt_of_le_of_lt hle (by decide)
  obtain ⟨slots, hrep, hrun⟩ := insertOpened_run key hold hlen
  refine ⟨slots, hrun, h.zero.setTable _ _, ?_, ?_⟩
  · rw [setTable_keys, hlast, hkeys, fromWindow_append, ← htable]
    refine holds_setTable_self (hrep.congr fun k => ?_)
    rcases heq with rfl | rfl
    · rfl
    · simp
  · rw [htable, ← hlast]
    exact h.previous.setTable _

theorem Retabled.keys_eq {store' : Store} (h : Retabled store store') : store'.keys = store.keys := by
  obtain ⟨zero, one, rfl⟩ := h
  rfl

theorem insertOpened_triple (hkeys : store.keys = ks ++ [key]) :
    Triple (fun s => Retabled store s ∧ TablesPending codec s ∧
        ∃ keys, Holds codec s (replayTable ks.length) keys ∧
          (keys = fromWindow ks (windowOf ks.length) ∨
            keys = fromWindow ks (windowOf ks.length) ++ [key]))
      (insertOpened codec (replayTable ks.length) key)
      (fun _ s => Retabled store s ∧ TablesDone codec s) (fun _ _ => False)
      (fun s => Retabled store s ∧ TablesPending codec s) := by
  rintro s ⟨hsame, hpending, keys, hholds, heq⟩
  obtain ⟨slots, hrun, hdone⟩ := hpending.insert (hsame.keys_eq.trans hkeys) rfl hholds heq
  have hsame' := hsame.setTable (replayTable ks.length) (s.runtimeTable slots)
  rw [after, hrun]
  refine ⟨fun t ht => ?_, hsame', hdone⟩
  rw [List.mem_singleton.mp ht]
  exact ⟨hsame', hdone.pending⟩

theorem replayInsert_triple (hkeys : store.keys = ks ++ [key]) :
    Triple (fun s => Retabled store s ∧ TablesPending codec s)
      (replayInsert codec ks.length key)
      (fun _ s => Retabled store s ∧ TablesDone codec s) (fun _ _ => False)
      (fun s => Retabled store s ∧ TablesPending codec s) := by
  have hlast : ∀ {s}, Retabled store s → s.keys.length - 1 = ks.length := by
    intro s hsame
    simp [hsame.keys_eq, hkeys]
  rw [replayInsert]
  by_cases hnew : ks.length > 0 ∧ ks.length % maxDedupeEvents = 0
  · -- a new window: its table is reset, also if it was before the crash
    simp only [if_pos hnew]
    refine .bind (.write ?_) fun _ => insertOpened_triple hkeys
    rintro s ⟨hsame, hpending⟩
    have hreset := hpending.reset (hlast hsame ▸ hnew.1) (hlast hsame ▸ hnew.2)
    rw [hlast hsame] at hreset
    have hsame' := hsame.setTable (replayTable ks.length) s.document.freshTable
    exact ⟨⟨hsame', hreset⟩, hsame', hreset, [], holds_setTable_self (represents_empty _ _),
      .inl (fromWindow_eq_nil hnew.2).symm⟩
  · simp only [if_neg hnew]
    refine (insertOpened_triple hkeys).weaken ?_ (fun _ _ h => h) (fun _ _ h => h) fun _ h => h
    rintro s ⟨hsame, hpending⟩
    refine ⟨hsame, hpending, ?_⟩
    obtain ⟨count, hcount, hholds⟩ := hpending.current (by rw [hlast hsame]; omega)
    rw [hlast hsame, hsame.keys_eq, hkeys] at hholds
    refine ⟨_, hholds, ?_⟩
    rcases hcount with rfl | rfl
    · rw [hlast hsame, List.take_left]
      exact .inl rfl
    · rw [hsame.keys_eq, hkeys, List.take_length, fromWindow_append]
      exact .inr rfl

/-! ## Counting the next event -/

structure SameTables (store store' : Store) : Prop where
  runtimeId : store'.document.runtimeId = store.document.runtimeId
  runtimeGeneration : store'.document.runtimeGeneration = store.document.runtimeGeneration
  tableZero : store'.tableZero = store.tableZero
  tableOne : store'.tableOne = store.tableOne

section
variable {store' : Store} (hsame : SameTables store store')
include hsame

theorem SameTables.zeroOpens (h : ZeroOpens store) : ZeroOpens store' := by
  unfold ZeroOpens
  rwa [hsame.runtimeId, hsame.runtimeGeneration, hsame.tableZero]

theorem SameTables.holds {keys : List DedupeKey} (h : Holds codec store table keys) :
    Holds codec store' table keys := by
  unfold Holds Store.table
  rwa [hsame.runtimeId, hsame.runtimeGeneration, hsame.tableZero, hsame.tableOne]

theorem SameTables.pending (hkeys : store'.keys = store.keys) (h : TablesPending codec store) :
    TablesPending codec store' := by
  refine ⟨hsame.zeroOpens h.zero, fun hinside => ?_, fun k hk => ?_⟩
  · rw [hkeys] at hinside ⊢
    obtain ⟨count, hcount, hholds⟩ := h.current hinside
    exact ⟨count, hcount, hsame.holds hholds⟩
  · rw [hkeys] at hk ⊢
    exact hsame.holds (h.previous k hk)

theorem SameTables.ready (hkeys : store'.keys = store.keys) (h : TablesReady codec store) :
    TablesReady codec store' := by
  refine ⟨hsame.zeroOpens h.zero, ?_, fun hmod k hk => ?_⟩
  · rw [hkeys]
    exact hsame.holds h.current
  · rw [hkeys] at hmod hk ⊢
    exact hsame.holds (h.previous hmod k hk)

end

theorem window_append {keys : List DedupeKey} (key : DedupeKey)
    (h : (k + 1) * maxDedupeEvents ≤ keys.length) : window (keys ++ [key]) k = window keys k := by
  rw [Nat.add_mul, Nat.one_mul] at h
  rw [window, fromWindow, List.drop_append_of_le_length (Nat.le_of_add_right_le h),
    List.take_append_of_le_length, window, fromWindow]
  rw [List.length_drop]
  exact Nat.le_sub_of_add_le' h

theorem fromWindow_eq_window {keys : List DedupeKey}
    (h : (k + 1) * maxDedupeEvents = keys.length) : fromWindow keys k = window keys k := by
  rw [window, List.take_of_length_le]
  rw [fromWindow, List.length_drop, ← h, Nat.add_mul, Nat.one_mul, Nat.add_sub_cancel_left]

theorem TablesReady.reset (h : TablesReady codec store) (hpos : store.keys.length > 0)
    (hmod : store.keys.length % maxDedupeEvents = 0) :
    TablesReady codec (store.setTable (replayTable store.keys.length)
      (store.runtimeTable fun _ => none)) := by
  refine ⟨h.zero.setTable _ _, ?_, ?_⟩
  · rw [setTable_keys]
    refine h.current.setTable_of_ne _ ?_
    unfold replayTable maxDedupeEvents at *
    omega
  · rw [setTable_keys]
    exact fun hne => absurd hmod hne

theorem TablesReady.append {store' : Store} (h : TablesReady codec store)
    (hsame : SameTables store store') (hkeys : store'.keys = store.keys ++ [key]) :
    TablesPending codec store' := by
  have hlast : store'.keys.length - 1 = store.keys.length := by simp [hkeys]
  refine ⟨hsame.zeroOpens h.zero, fun hinside => ⟨store.keys.length, .inl hlast.symm, ?_⟩, ?_⟩
  · rw [hlast] at hinside ⊢
    rw [hkeys, List.take_left]
    have hwindow : windowOf store.keys.length = windowOf (store.keys.length - 1) := by
      unfold windowOf maxDedupeEvents at *
      omega
    have htable : replayTable store.keys.length = replayTable (store.keys.length - 1) := by
      show windowOf store.keys.length % 2 = windowOf (store.keys.length - 1) % 2
      rw [hwindow]
    rw [hwindow, htable]
    exact hsame.holds h.current
  · intro k hk
    rw [hlast] at hk
    have hle : (k + 1) * maxDedupeEvents ≤ store.keys.length := by
      rw [hk]
      exact Nat.div_mul_le_self _ _
    rw [hkeys, window_append key hle]
    apply hsame.holds
    by_cases hmod : store.keys.length % maxDedupeEvents = 0
    · -- the newest window is complete and becomes the one before
      have hcomplete : (k + 1) * maxDedupeEvents = store.keys.length := by
        rw [hk]
        exact Nat.div_mul_cancel (Nat.dvd_of_mod_eq_zero hmod)
      have hwindow : windowOf (store.keys.length - 1) = k := by
        unfold windowOf maxDedupeEvents at *
        omega
      have hcurrent := h.current
      rw [hwindow, fromWindow_eq_window hcomplete] at hcurrent
      have htable : replayTable (store.keys.length - 1) = k % 2 := by
        show windowOf (store.keys.length - 1) % 2 = k % 2
        rw [hwindow]
      rwa [htable] at hcurrent
    · refine h.previous hmod k ?_
      unfold windowOf maxDedupeEvents at *
      omega

end NilsCli.Activity
