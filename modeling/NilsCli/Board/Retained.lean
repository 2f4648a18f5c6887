import Mathlib.Data.List.Chain
import NilsCli.Lib.Eviction
import NilsCli.Board.Ledger

/-!
# What a ledger holds

A ledger holds the latest of the records that were appended to it, in order (`Holds`), because their
times do not decrease and so age drops them from the front, as the bound on their number does.
-/

namespace NilsCli.Board

open Lib List

variable {codec : LedgerCodec}

/-! ## Cursors -/

section
variable {id : String} {seq : Nat}

def Hyphenated (codec : LedgerCodec) (id : String) : Prop :=
  codec.parseUuid id = some id ∧ ':' ∉ id.toList

theorem not_mem_digits (n : Nat) : ':' ∉ (toString n).toList := by
  intro h
  have hdigits : ':' ∈ Nat.toDigits 10 n := by simpa using h
  exact absurd (isAsciiDigit_of_mem_toDigits hdigits) (by decide)

theorem splitAt_cursor (hid : ':' ∉ id.toList) :
    splitAt (cursor id seq) ':' = ["v1", id, toString seq] := by
  refine splitAt_intercalate (by simp) fun part hpart => ?_
  rcases List.mem_cons.mp hpart with rfl | hpart
  · decide
  rcases List.mem_cons.mp hpart with rfl | hpart
  · exact hid
  rw [List.mem_singleton.mp hpart]
  exact not_mem_digits seq

theorem parseCursor_cursor (hid : Hyphenated codec id) (hseq : seq ≤ u64Max) :
    parseCursor codec (cursor id seq) = some (id, seq) := by
  have hdigits : (toString seq).toList = Nat.toDigits 10 seq := by simp
  have hall : (Nat.toDigits 10 seq).all isAsciiDigit :=
    List.all_eq_true.mpr fun c hc => isAsciiDigit_of_mem_toDigits hc
  have hparse : parseU64 (toString seq) = some seq := parseU64_toString (by simpa [u64Max] using hseq)
  unfold parseCursor
  rw [splitAt_cursor hid.2]
  simp only [ne_eq, not_true, if_false, hid.1, hdigits, Nat.toDigits_ne_nil, hall, or_self, hparse,
    Option.map_some]

theorem cursor_inj {id' : String} {seq' : Nat} (hid : Hyphenated codec id) (hseq : seq ≤ u64Max)
    (hid' : Hyphenated codec id') (hseq' : seq' ≤ u64Max) (h : cursor id seq = cursor id' seq') :
    id = id' ∧ seq = seq' := by
  have hparse := parseCursor_cursor hid hseq
  rw [h, parseCursor_cursor hid' hseq'] at hparse
  exact ⟨congrArg Prod.fst (Option.some.inj hparse).symm,
    congrArg Prod.snd (Option.some.inj hparse).symm⟩

end

/-! ## The records of a ledger -/

structure Closed where
  ledgerId : String
  seq : Nat
  record : Value

/-- The entry of the ledger for it. -/
def Closed.entry (c : Closed) : Entry := ⟨c.seq, c.record⟩

def behind (appended : List Closed) (c : String) : Nat :=
  appended.findIdx (fun x => cursor x.ledgerId x.seq = c) + 1

def ClosedBy (codec : LedgerCodec) (now : Timestamp) (c : Closed) : Prop :=
  ∃ closed, closedAtEpoch codec c.record = some closed ∧ closed ≤ now.asSecond

/-- `b` was not closed before `a`. -/
def ClosedBefore (codec : LedgerCodec) (a b : Closed) : Prop :=
  ∀ s, closedAtEpoch codec a.record = some s →
    ∃ t, closedAtEpoch codec b.record = some t ∧ s ≤ t

structure Holds (codec : LedgerCodec) (now : Timestamp) (before log : List Closed)
    (ledger : Ledger) : Prop where
  schema : ledger.schemaVersion = ledgerSchema
  hyphenated : Hyphenated codec ledger.ledgerId
  lastSeq : ledger.lastSeq = log.length
  small : log.length ≤ u64Max
  storable : ∀ c ∈ log, codec.storable c.record
  numbered : log.map (·.seq) = List.range' 1 log.length
  own : ∀ c ∈ log, c.ledgerId = ledger.ledgerId
  earlier : ∀ c ∈ before, c.ledgerId ≠ ledger.ledgerId
  retained : ∃ k, ledger.entries = (log.drop k).map Closed.entry
  closedBy : ∀ c ∈ log, ClosedBy codec now c
  inOrder : log.Pairwise (ClosedBefore codec)

section
variable {now : Timestamp} {before log : List Closed} {ledger : Ledger}

theorem asSecond_mono {s t : Timestamp} (h : s.nanos ≤ t.nanos) : s.asSecond ≤ t.asSecond := by
  unfold Timestamp.asSecond
  exact Int.tdiv_le_tdiv (by decide) h

theorem filter_seq {start : Nat} (h : log.map (·.seq) = range' (start + 1) log.length)
    (seq : Nat) : log.filter (seq < ·.seq) = log.drop (seq - start) := by
  induction log generalizing start with
  | nil => simp
  | cons c log ih =>
    rw [map_cons, length_cons, range'_succ, List.cons.injEq] at h
    have hrest := ih h.2
    by_cases hlt : seq < c.seq
    · have hall : log.filter (seq < ·.seq) = log := by
        rw [hrest, show seq - (start + 1) = 0 by omega, drop_zero]
      rw [filter_cons_of_pos (by simpa using hlt), hall, show seq - start = 0 by omega,
        drop_zero]
    · rw [filter_cons_of_neg (by simpa using hlt), hrest,
        show seq - start = seq - (start + 1) + 1 by omega, drop_succ_cons]

theorem numbered_drop (h : log.map (·.seq) = range' 1 log.length) (k : Nat) :
    (log.drop k).map (·.seq) = range' (k + 1) (log.drop k).length := by
  rw [map_drop, h, drop_range', length_drop]
  congr 1
  omega

namespace Holds

section

variable (h : Holds codec now before log ledger)

include h

theorem filter_entries (seq : Nat) :
    ∃ k, ledger.entries = (log.drop k).map Closed.entry ∧
      ledger.entries.filter (seq < ·.seq) = (log.drop (max k seq)).map Closed.entry := by
  obtain ⟨k, hk⟩ := h.retained
  refine ⟨k, hk, ?_⟩
  have hfilter := filter_seq (numbered_drop h.numbered k) seq
  rw [hk, filter_map]
  have hcomp : (fun e : Entry => decide (seq < e.seq)) ∘ Closed.entry =
      fun c => decide (seq < c.seq) := rfl
  rw [hcomp, hfilter, drop_drop, show k + (seq - k) = max k seq by omega]

theorem seq_getElem {i : Nat} (hi : i < log.length) :
    log[i].seq = i + 1 := by
  have hget := getElem_map (·.seq) (l := log) (i := i) (h := by simpa using hi)
  simp only [h.numbered, getElem_range'] at hget
  omega

theorem complete_iff {seq : Nat} (hseq : seq ≤ log.length) :
    (ledger.entries.filter (seq < ·.seq)).length = ledger.lastSeq - seq ↔
      ledger.entries.filter (seq < ·.seq) = (log.drop seq).map Closed.entry := by
  obtain ⟨k, -, hfilter⟩ := h.filter_entries seq
  rw [hfilter, h.lastSeq]
  constructor
  · intro hlength
    simp only [length_map, length_drop] at hlength
    rcases Nat.le_total k seq with hk | hk
    · rw [Nat.max_eq_right hk]
    · rw [Nat.max_eq_left hk] at hlength ⊢
      rcases Nat.eq_or_lt_of_le hk with rfl | hk
      · rfl
      · rw [drop_eq_nil_of_le (by omega), drop_eq_nil_of_le (by omega)]
  · intro heq
    have hlength := congrArg List.length heq
    simpa using hlength

theorem missing {seq : Nat} (hseq : seq ≤ log.length)
    (hlength : (ledger.entries.filter (seq < ·.seq)).length ≠ ledger.lastSeq - seq) :
    ∃ c ∈ log.drop seq, c.entry ∉ ledger.entries := by
  by_contra hall
  push Not at hall
  refine hlength ((h.complete_iff hseq).mpr ?_)
  obtain ⟨k, hk, hfilter⟩ := h.filter_entries seq
  rcases Nat.le_total k seq with hle | hle
  · rw [hfilter, Nat.max_eq_right hle]
  -- the record with the number `seq + 1` is among the retained ones, which are numbered from `k + 1`
  rcases Nat.lt_or_ge seq log.length with hlt | hge
  · have hmem := hall log[seq] (List.mem_drop_iff_getElem.mpr ⟨0, by simpa using hlt, by simp⟩)
    rw [hk, mem_map] at hmem
    obtain ⟨c, hc, hentry⟩ := hmem
    have hseqs : ∀ c ∈ log.drop k, k + 1 ≤ c.seq := by
      intro c hc
      have hmem := mem_map_of_mem (f := (·.seq)) hc
      rw [numbered_drop h.numbered k, mem_range'_1] at hmem
      omega
    have hnumber := h.seq_getElem hlt
    have hckey : c.seq = log[seq].seq := congrArg Entry.seq hentry
    have := hseqs c hc
    rw [hfilter, show max k seq = seq by omega]
  · rw [hfilter, drop_eq_nil_of_le (by omega), drop_eq_nil_of_le hge]

theorem seq_range {c : Closed} (hc : c ∈ log) :
    1 ≤ c.seq ∧ c.seq ≤ log.length := by
  have hmem := mem_map_of_mem (f := (·.seq)) hc
  rw [h.numbered, mem_range'_1] at hmem
  omega

theorem mem_entries {e : Entry} (he : e ∈ ledger.entries) :
    ∃ c ∈ log, e = c.entry := by
  obtain ⟨k, hk⟩ := h.retained
  rw [hk] at he
  obtain ⟨c, hc, rfl⟩ := List.mem_map.mp he
  exact ⟨c, mem_of_mem_drop hc, rfl⟩

theorem bounded (hfew : ledger.entries.length ≤ maxEntries) :
    ledger.Bounded codec.parseUuid codec.storable where
  schema := h.schema
  id := h.hyphenated.1
  lastSeq := by rw [h.lastSeq]; exact h.small
  seqs e he := by
    obtain ⟨c, hc, rfl⟩ := h.mem_entries he
    exact (h.seq_range hc).2.trans h.small
  few := hfew
  records e he := by
    obtain ⟨c, hc, rfl⟩ := h.mem_entries he
    exact h.storable c hc

theorem readLedger_eq
    (hfew : ledger.entries.length ≤ maxEntries) :
    readLedger codec (some (codec.toVecPretty ledger)) = .present ledger := by
  have hconsistent : ledger.consistent codec := by
    obtain ⟨k, hk⟩ := h.retained
    have hnumbered := numbered_drop h.numbered k
    have hchain : (ledger.entries.map (·.seq)).IsChain (· < ·) := by
      rw [hk, map_map]
      refine List.Pairwise.isChain ?_
      rw [show (fun e : Entry => e.seq) ∘ Closed.entry = fun c => c.seq from rfl, hnumbered]
      exact pairwise_lt_range'
    have hrange : ∀ e ∈ ledger.entries, 1 ≤ e.seq ∧ e.seq ≤ ledger.lastSeq := by
      intro e he
      obtain ⟨c, hc, rfl⟩ := h.mem_entries he
      rw [h.lastSeq]
      exact h.seq_range hc
    rw [Ledger.consistent, decide_eq_true_eq]
    refine ⟨h.schema, by rw [h.hyphenated.1]; rfl, ?_, hrange⟩
    exact (isChain_map _).mp hchain
  have hbounded := h.bounded hfew
  rw [readLedger, if_neg (Nat.not_lt.mpr (codec.fits ledger hbounded)),
    codec.reads_back ledger hbounded]
  simp only [hconsistent, if_true]

theorem mono {now' : Timestamp}
    (hnow : now.nanos ≤ now'.nanos) : Holds codec now' before log ledger :=
  { h with
    closedBy := fun c hc => by
      obtain ⟨closed, hclosed, hle⟩ := h.closedBy c hc
      exact ⟨closed, hclosed, hle.trans (asSecond_mono hnow)⟩ }

/-- Age and number drop entries from the front. -/
theorem prunedEntries_eq (at_ : Int) :
    ∃ k, Ledger.prunedEntries codec at_ ledger.entries = (log.drop k).map Closed.entry := by
  obtain ⟨k, hk⟩ := h.retained
  have hyoung : (log.drop k).Pairwise fun a b =>
      Ledger.young codec at_ a.entry → Ledger.young codec at_ b.entry := by
    refine (h.inOrder.drop).imp fun {a b} hab ha => ?_
    obtain ⟨s, hs, hage⟩ : ∃ s, closedAtEpoch codec a.record = some s ∧
        i64Sub at_ s ≤ maxAgeSeconds := by
      unfold Ledger.young at ha
      split at ha
      next s hs => exact ⟨s, hs, of_decide_eq_true ha⟩
      next => cases ha
    obtain ⟨t, ht, hst⟩ := hab s hs
    have hentry : closedAtEpoch codec b.entry.record = some t := ht
    rw [Ledger.young, hentry]
    exact decide_eq_true ((i64Clamp_mono (by omega)).trans hage)
  obtain ⟨j, hj⟩ := filter_eq_drop hyoung
  have hfilter : ((log.drop k).map Closed.entry).filter (Ledger.young codec at_) =
      ((log.drop k).drop j).map Closed.entry := by
    rw [filter_map]
    exact congrArg _ hj
  rw [Ledger.prunedEntries, hk, hfilter, ← map_drop, drop_drop, drop_drop]
  exact ⟨_, rfl⟩

end

theorem length_prunedEntries (at_ : Int) (entries : List Entry) :
    (Ledger.prunedEntries codec at_ entries).length ≤ maxEntries := by
  rw [Ledger.prunedEntries, length_drop]
  omega

theorem prune (h : Holds codec now before log ledger) (at_ : Int) :
    Holds codec now before log (ledger.prune codec at_).1 where
  schema := by rw [Ledger.prune_schemaVersion, h.schema]
  hyphenated := by rw [Ledger.prune_ledgerId]; exact h.hyphenated
  lastSeq := by rw [Ledger.prune_lastSeq, h.lastSeq]
  small := h.small
  storable := h.storable
  numbered := h.numbered
  own := by rw [Ledger.prune_ledgerId]; exact h.own
  earlier := by rw [Ledger.prune_ledgerId]; exact h.earlier
  retained := by
    rw [Ledger.prune_entries]
    exact h.prunedEntries_eq at_
  closedBy := h.closedBy
  inOrder := h.inOrder

theorem empty {fresh : String} (hfresh : Hyphenated codec fresh)
    (hbefore : ∀ c ∈ before, c.ledgerId ≠ fresh) : Holds codec now before [] (.empty fresh) where
  schema := rfl
  hyphenated := hfresh
  lastSeq := rfl
  small := Nat.zero_le _
  storable := by simp
  numbered := rfl
  own := by simp
  earlier := hbefore
  retained := ⟨0, rfl⟩
  closedBy := by simp
  inOrder := .nil

end Holds

/-! ## A new record -/

theorem closedAtEpoch_closedRecord {closedAt : Timestamp} {record : Value} (h : record.IsObject) :
    closedAtEpoch codec (closedRecord codec closedAt record) = some closedAt.asSecond := by
  rw [closedAtEpoch, closedRecord, Value.get_insert h]
  simp [Value.asStr, codec.parse_show]

/-- The record that `append` adds. -/
def appended (codec : LedgerCodec) (closedAt : Timestamp) (record : Value) (ledger : Ledger) :
    Closed :=
  ⟨ledger.ledgerId, ledger.lastSeq + 1, closedRecord codec closedAt record⟩

theorem Holds.append {closedAt after : Timestamp} {record : Value}
    (h : Holds codec now before log ledger) (hnow : now.nanos ≤ closedAt.nanos)
    (hafter : closedAt.nanos ≤ after.nanos) (hobject : record.IsObject)
    (hstorable : codec.storable (closedRecord codec closedAt record))
    (hseq : ledger.lastSeq < u64Max) :
    Holds codec after before (log ++ [appended codec closedAt record ledger])
      { ledger with
        lastSeq := ledger.lastSeq + 1
        entries := ledger.entries ++ [(appended codec closedAt record ledger).entry] } where
  schema := h.schema
  hyphenated := h.hyphenated
  lastSeq := by rw [length_append, h.lastSeq]; rfl
  small := by
    rw [h.lastSeq] at hseq
    rw [length_append]
    exact hseq
  storable := by
    intro c hc
    rcases List.mem_append.mp hc with hc | hc
    · exact h.storable c hc
    · rw [List.mem_singleton.mp hc]
      exact hstorable
  numbered := by
    rw [map_append, h.numbered, length_append, length_singleton,
      range'_concat]
    simp only [map_singleton, appended, h.lastSeq]
    congr 2
    omega
  own := by
    intro c hc
    rcases List.mem_append.mp hc with hc | hc
    · exact h.own c hc
    · rw [List.mem_singleton.mp hc]
      rfl
  earlier := h.earlier
  retained := by
    obtain ⟨k, hk⟩ := h.retained
    refine ⟨min k log.length, ?_⟩
    have hsame : log.drop k = log.drop (min k log.length) := by
      rcases Nat.le_total k log.length with hle | hle
      · rw [Nat.min_eq_left hle]
      · rw [Nat.min_eq_right hle, drop_eq_nil_of_le hle, drop_length]
    rw [drop_append_of_le_length (Nat.min_le_right _ _), map_append, ← hsame, ← hk]
    rfl
  closedBy := by
    intro c hc
    rcases List.mem_append.mp hc with hc | hc
    · obtain ⟨closed, hclosed, hle⟩ := h.closedBy c hc
      exact ⟨closed, hclosed, hle.trans (asSecond_mono (hnow.trans hafter))⟩
    · rw [List.mem_singleton.mp hc]
      exact ⟨closedAt.asSecond, closedAtEpoch_closedRecord hobject, asSecond_mono hafter⟩
  inOrder := by
    refine List.pairwise_append.mpr ⟨h.inOrder, pairwise_singleton _ _, ?_⟩
    intro a ha b hb s hs
    rw [List.mem_singleton.mp hb]
    obtain ⟨closed, hclosed, hle⟩ := h.closedBy a ha
    have hsame : s = closed := Option.some.inj (hs.symm.trans hclosed)
    refine ⟨closedAt.asSecond, closedAtEpoch_closedRecord hobject, ?_⟩
    rw [hsame]
    exact hle.trans (asSecond_mono hnow)

/-- The position behind a record of the ledger. -/
theorem Holds.behind_eq (h : Holds codec now before log ledger)
    (hbefore : ∀ c ∈ before, Hyphenated codec c.ledgerId ∧ c.seq ≤ u64Max) {c : Closed}
    (hc : c ∈ log) :
    behind (before ++ log) (cursor ledger.ledgerId c.seq) = before.length + c.seq := by
  have hbound : c.seq ≤ u64Max := (h.seq_range hc).2.trans h.small
  have hnone : before.findIdx (fun x => cursor x.ledgerId x.seq = cursor ledger.ledgerId c.seq) =
      before.length := by
    refine List.findIdx_eq_length.mpr fun x hx => decide_eq_false fun heq => ?_
    obtain ⟨hid, hseq⟩ := hbefore x hx
    exact h.earlier x hx (cursor_inj hid hseq h.hyphenated hbound heq).1
  obtain ⟨i, hi, rfl⟩ := List.mem_iff_getElem.mp hc
  have hindex : log.findIdx
      (fun x => cursor x.ledgerId x.seq = cursor ledger.ledgerId log[i].seq) = i := by
    refine (findIdx_eq hi).mpr ⟨?_, fun j hj => decide_eq_false fun heq => ?_⟩
    · rw [h.own log[i] hc]
      exact decide_eq_true rfl
    · have hj' : j < log.length := by omega
      have hmem := getElem_mem hj'
      rw [h.own _ hmem] at heq
      have hseqs := (cursor_inj h.hyphenated ((h.seq_range hmem).2.trans h.small) h.hyphenated
        hbound heq).2
      rw [h.seq_getElem hj', h.seq_getElem hi] at hseqs
      omega
  rw [behind, findIdx_append, hnone, if_neg (Nat.lt_irrefl _), hindex, h.seq_getElem hi]
  omega

end

end NilsCli.Board
