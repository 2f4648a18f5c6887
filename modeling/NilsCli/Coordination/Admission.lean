import NilsCli.Coordination.ReceiptLife
import NilsCli.Coordination.WorkSafety

/-!
# Admission of receipts

`store_receipt` admits a receipt exactly if it would fit without the finished receipts of its
principal.
-/

namespace NilsCli.Coordination

open Lib List

variable {codec : Codec} {r r' : Registry} {key : ReceiptKey} {size : Nat} {now : Int}

abbrev ReceiptRow := Sigma fun _ : ReceiptKey => IdempotencyReceipt

variable {rows taken : List ReceiptRow}

def rowSizes (codec : Codec) (rows : List ReceiptRow) : List Nat :=
  rows.map fun row => codec.receiptBytes row.2

/-- A receipt of `size` bytes fits under `key`. A key that has a receipt does not count again. -/
def Fits (codec : Codec) (r : Registry) (key : ReceiptKey) (size : Nat) : Prop :=
  (r.receipts.lookup key = none →
    r.receipts.size < maxReceiptsGlobal ∧
      (principalReceipts r key.principal key).length < maxReceiptsPerPrincipal) ∧
  (rowSizes codec (principalReceipts r key.principal key)).sum + size ≤ maxReceiptBytesPerPrincipal

def withoutRows (r : Registry) (rows : List ReceiptRow) : Registry :=
  { r with receipts := Table.filter (fun k _ => decide (k ∉ rows.map (·.1))) r.receipts }

/-- The registry without the finished receipts of the key's principal under other keys. -/
def withoutFinished (r : Registry) (key : ReceiptKey) (now : Int) : Registry :=
  { r with
    receipts := Table.filter (fun k x =>
      !((x.principal = key.principal && k ≠ key) && finished r.messages now x)) r.receipts }

/-! ## The usage -/

theorem foldl_u64Add {bytes : Nat} (h : bytes ≤ u64Max) :
    rows.foldl (fun bytes row => u64Add bytes (codec.receiptBytes row.2)) bytes =
      min (bytes + (rowSizes codec rows).sum) u64Max := by
  induction rows generalizing bytes with
  | nil => simp [rowSizes, h]
  | cons row rows ih =>
    have hbound : u64Add bytes (codec.receiptBytes row.2) ≤ u64Max := min_le_right _ _
    rw [foldl_cons, ih hbound]
    simp only [rowSizes, map_cons, sum_cons, u64Add]
    omega

theorem receiptsBytes_eq (rows : List ReceiptRow) :
    receiptsBytes codec rows = min (rowSizes codec rows).sum u64Max := by
  rw [receiptsBytes, foldl_u64Add (Nat.zero_le _), Nat.zero_add]

def usage (codec : Codec) (r : Registry) (key : ReceiptKey) : ReceiptUsage :=
  ⟨r.receipts.size, (principalReceipts r key.principal key).length,
    (rowSizes codec (principalReceipts r key.principal key)).sum⟩

theorem charge_le_iff {bytes : Nat} :
    u64Add bytes size ≤ maxReceiptBytesPerPrincipal ↔
      bytes + size ≤ maxReceiptBytesPerPrincipal := by
  have hlimit : maxReceiptBytesPerPrincipal < u64Max := by decide
  unfold u64Add
  omega

theorem fits_iff :
    Fits codec r key size ↔
      ReceiptUsage.exceeds (r.receipts.lookup key).isNone size (usage codec r key) = false := by
  unfold Fits ReceiptUsage.exceeds usage
  rw [← charge_le_iff]
  cases hl : r.receipts.lookup key with
  | none =>
    simp only [Option.isNone_none, Bool.true_and, Bool.or_eq_false_iff, decide_eq_false_iff_not]
    constructor
    · rintro ⟨hcounts, hbytes⟩
      obtain ⟨htotal, hcount⟩ := hcounts trivial
      exact ⟨⟨by omega, by omega⟩, by omega⟩
    · rintro ⟨⟨hcount, htotal⟩, hbytes⟩
      exact ⟨fun _ => ⟨by omega, by omega⟩, by omega⟩
  | some x => simp

/-- Fewer receipts leave at least as much room. -/
theorem Fits.mono (h : Fits codec r key size)
    (hsub : r'.receipts.entries.Sublist r.receipts.entries)
    (hkey : r'.receipts.lookup key = none → r.receipts.lookup key = none) :
    Fits codec r' key size := by
  have hothers : (principalReceipts r' key.principal key).Sublist
      (principalReceipts r key.principal key) := hsub.filter _
  have hbytes : (rowSizes codec (principalReceipts r' key.principal key)).sum ≤
      (rowSizes codec (principalReceipts r key.principal key)).sum :=
    (hothers.map _).sum_le_sum fun _ _ => Nat.zero_le _
  refine ⟨fun hnone => ?_, ?_⟩
  · obtain ⟨htotal, hcount⟩ := h.1 (hkey hnone)
    exact ⟨lt_of_le_of_lt hsub.length_le htotal, lt_of_le_of_lt hothers.length_le hcount⟩
  · have := h.2
    omega

theorem Fits.congr (h : Fits codec r key size) (heq : r'.receipts = r.receipts) :
    Fits codec r' key size := h.mono (heq ▸ List.Sublist.refl _) fun hnone => heq ▸ hnone

/-! ## The plan -/

theorem evictionPlan_split {exceeds : ReceiptUsage → Bool} {u : ReceiptUsage}
    {rows : List (ReceiptKey × Nat)} :
    ∃ taken rest, rows = taken ++ rest ∧ (evictionPlan exceeds u rows).1 = taken.map (·.1) ∧
      (evictionPlan exceeds u rows).2 = (taken.map (·.2)).foldl ReceiptUsage.evict u ∧
      (rest ≠ [] → exceeds (evictionPlan exceeds u rows).2 = false) := by
  induction rows generalizing u with
  | nil => exact ⟨[], [], rfl, rfl, rfl, fun h => absurd rfl h⟩
  | cons row rows ih =>
    unfold evictionPlan
    split
    case isTrue =>
      obtain ⟨taken, rest, hrows, hkeys, husage, hrest⟩ := ih (u := u.evict row.2)
      exact ⟨row :: taken, rest, by rw [hrows, cons_append], by simp [hkeys], by simp [husage],
        hrest⟩
    case isFalse hfits =>
      exact ⟨[], row :: rows, rfl, rfl, rfl, fun _ => by simpa using hfits⟩

theorem foldl_evict {sizes : List Nat} {u : ReceiptUsage} :
    sizes.foldl ReceiptUsage.evict u =
      ⟨u.total - sizes.length, u.count - sizes.length, u.bytes - sizes.sum⟩ := by
  induction sizes generalizing u with
  | nil => rfl
  | cons size sizes ih =>
    rw [foldl_cons, ih]
    simp only [ReceiptUsage.evict, length_cons, sum_cons]
    congr 1 <;> omega

/-- Rows of a table, and the rest of it. -/
theorem perm_append_filter (hrows : rows.NodupKeys)
    (htaken : taken.Nodup) (hsub : ∀ row ∈ taken, row ∈ rows) :
    (taken ++ rows.filter fun row => decide (row.1 ∉ taken.map (·.1))).Perm rows := by
  have hinside : (rows.filter fun row => decide (row.1 ∈ taken.map (·.1))).Perm taken := by
    rw [perm_ext_iff_of_nodup (hrows.nodup.filter _) htaken]
    intro row
    rw [mem_filter, decide_eq_true_eq, mem_map]
    constructor
    · rintro ⟨hrow, other, hother, heq⟩
      rwa [← hrows.eq_of_fst_eq (hsub other hother) hrow heq]
    · exact fun hrow => ⟨hsub row hrow, row, hrow, rfl⟩
  have hsplit := filter_append_perm (fun row => decide (row.1 ∈ taken.map (·.1))) rows
  simp only [← decide_not] at hsplit
  exact (hinside.symm.append_right _).trans hsplit

/-- What the plan subtracts is what the registry loses. -/
theorem usage_withoutRows (htaken : taken.Nodup)
    (hsub : ∀ row ∈ taken, row ∈ principalReceipts r key.principal key) :
    usage codec (withoutRows r taken) key =
      (rowSizes codec taken).foldl ReceiptUsage.evict (usage codec r key) := by
  have hall := perm_append_filter r.receipts.nodupKeys htaken fun row hrow =>
    (List.mem_filter.mp (hsub row hrow)).1
  have hnodup : (principalReceipts r key.principal key).NodupKeys :=
    r.receipts.nodupKeys.sublist filter_sublist
  have hothers := perm_append_filter hnodup htaken hsub
  have hcomm : principalReceipts (withoutRows r taken) key.principal key =
      (principalReceipts r key.principal key).filter
        fun row => decide (row.1 ∉ taken.map (·.1)) := by
    simp only [principalReceipts, withoutRows, Table.filter]
    exact filter_comm _ _ _
  have htotal := hall.length_eq
  have hcount := hothers.length_eq
  have hbytes := (hothers.map fun row => codec.receiptBytes row.2).sum_eq
  rw [length_append] at htotal hcount
  rw [map_append, sum_append] at hbytes
  have hlength : (rowSizes codec taken).length = taken.length := length_map _
  have hsize : (withoutRows r taken).receipts.size = r.receipts.size - taken.length :=
    Nat.eq_sub_of_add_eq' htotal
  rw [foldl_evict, hlength]
  unfold usage
  rw [hsize, hcomm, ReceiptUsage.mk.injEq]
  exact ⟨rfl, Nat.eq_sub_of_add_eq' hcount, Nat.eq_sub_of_add_eq' hbytes⟩

theorem nodup_evictable : (evictable codec r key.principal key now).Nodup :=
  (perm_sortBy _ _).nodup_iff.mpr ((r.receipts.nodupKeys.nodup.filter _).filter _)

theorem evictable_others {row : ReceiptRow} (h : row ∈ evictable codec r key.principal key now) :
    row ∈ principalReceipts r key.principal key := mem_of_mem_filter (mem_sortBy.mp h)

theorem withoutRows_evictable :
    (withoutRows r (evictable codec r key.principal key now)).receipts =
      (withoutFinished r key now).receipts := by
  refine AList.ext (filter_congr fun row hrow => ?_)
  rw [Bool.eq_iff_iff, decide_eq_true_eq, Bool.not_eq_true', ← Bool.not_eq_true, not_iff_not]
  constructor
  · intro hkey
    obtain ⟨other, hother, heq⟩ := List.mem_map.mp hkey
    have hmem := mem_sortBy.mp hother
    rw [mem_filter, principalReceipts, mem_filter] at hmem
    obtain rfl := r.receipts.nodupKeys.eq_of_fst_eq hmem.1.1 hrow heq
    exact Bool.and_eq_true_iff.mpr ⟨hmem.1.2, hmem.2⟩
  · intro hfinished
    obtain ⟨hother, hfin⟩ := Bool.and_eq_true_iff.mp hfinished
    exact List.mem_map.mpr ⟨row, mem_sortBy.mpr (List.mem_filter.mpr
      ⟨List.mem_filter.mpr ⟨hrow, hother⟩, hfin⟩), rfl⟩

theorem lookup_withoutRows (hsub : ∀ row ∈ taken, row ∈ principalReceipts r key.principal key) :
    (withoutRows r taken).receipts.lookup key = r.receipts.lookup key := by
  have hkey : key ∉ taken.map (·.1) := fun hmem => by
    obtain ⟨row, hrow, heq⟩ := List.mem_map.mp hmem
    have hne := (List.mem_filter.mp (hsub row hrow)).2
    simp [heq] at hne
  simp only [withoutRows, Table.lookup_filter, hkey, not_false_eq_true, decide_true]
  cases r.receipts.lookup key <;> rfl

/-! ## Making room -/

/-- The evicted rows, oldest first, and the finished rows that stay. -/
def Evicts (codec : Codec) (r : Registry) (key : ReceiptKey) (now : Int) (room : Registry)
    (taken rest : List ReceiptRow) : Prop :=
  evictable codec r key.principal key now = taken ++ rest ∧
    room.receipts = (withoutRows r taken).receipts

theorem makeRoom_cases
    (hmachine : (rowSizes codec (principalReceipts r key.principal key)).sum ≤ u64Max) :
    (makeRoom codec r key.principal key size now = r ∧
      (Fits codec r key size ∨ ¬ Fits codec (withoutFinished r key now) key size)) ∨
    ∃ taken rest, Evicts codec r key now (makeRoom codec r key.principal key size now) taken rest ∧
      Fits codec (makeRoom codec r key.principal key size now) key size := by
  have husage : receiptsBytes codec (principalReceipts r key.principal key) =
      (rowSizes codec (principalReceipts r key.principal key)).sum := by
    rw [receiptsBytes_eq, min_eq_left hmachine]
  unfold makeRoom
  dsimp only
  rw [husage]
  change let exceeds := ReceiptUsage.exceeds (r.receipts.lookup key).isNone size; _
  intro exceeds
  obtain ⟨taken, rest, hrows, hkeys, hafter, hrest⟩ := @evictionPlan_split exceeds
    (usage codec r key) ((evictable codec r key.principal key now).map fun row =>
      (row.1, codec.receiptBytes row.2))
  obtain ⟨taken, rest, hevictable, rfl, rfl⟩ := List.map_eq_append_iff.mp hrows
  have hsub : ∀ row ∈ taken, row ∈ principalReceipts r key.principal key := fun row hrow =>
    evictable_others (hevictable ▸ mem_append_left rest hrow)
  have htaken : taken.Nodup := (hevictable ▸ nodup_evictable).of_append_left
  simp only [map_map, Function.comp_def] at hkeys hafter
  have hplan : (evictionPlan exceeds (usage codec r key)
      ((evictable codec r key.principal key now).map fun row =>
        (row.1, codec.receiptBytes row.2))).2 = usage codec (withoutRows r taken) key :=
    hafter.trans (usage_withoutRows htaken hsub).symm
  have hfits : Fits codec (withoutRows r taken) key size ↔
      exceeds (usage codec (withoutRows r taken) key) = false := by
    rw [fits_iff, lookup_withoutRows hsub]
  split
  case isTrue h => exact .inl ⟨rfl, .inl (fits_iff.mpr ((Bool.not_eq_true' _).mp h))⟩
  case isFalse hover =>
    change ¬ (!exceeds (usage codec r key)) = true at hover
    change (ite _ _ _ = r ∧ _) ∨ _
    split
    case isTrue hnot =>
      have hstill : exceeds (usage codec (withoutRows r taken) key) = true := by
        rcases Bool.or_eq_true_iff.mp hnot with hempty | hexceeds
        · have htaken' : taken = [] := by
            rw [List.isEmpty_iff] at hempty
            exact List.map_eq_nil_iff.mp (hkeys.symm.trans hempty)
          subst htaken'
          rw [← hplan, hafter]
          simpa using hover
        · exact hplan ▸ hexceeds
      have hall : rest = [] := by
        by_contra hne
        have hfalse := hrest (by simpa using hne)
        rw [hplan, hstill] at hfalse
        cases hfalse
      rw [hall, append_nil] at hevictable
      refine .inl ⟨rfl, .inr fun hfinal => ?_⟩
      have hreceipts : (withoutRows r taken).receipts = (withoutFinished r key now).receipts :=
        hevictable ▸ withoutRows_evictable
      have hfinal' := hfits.mp (hfinal.congr hreceipts)
      rw [hstill] at hfinal'
      cases hfinal'
    case isFalse henough =>
      obtain ⟨-, henough⟩ := Bool.or_eq_false_iff.mp (Bool.not_eq_true _ ▸ henough)
      have hreceipts : Table.filter (fun k _ => decide (k ∉ (evictionPlan exceeds
          (usage codec r key) ((evictable codec r key.principal key now).map fun row =>
            (row.1, codec.receiptBytes row.2))).1)) r.receipts =
              (withoutRows r taken).receipts := by
        rw [hkeys]
        rfl
      refine .inr ⟨taken, rest, ⟨hevictable, hreceipts⟩, ?_⟩
      exact (hfits.mpr (hplan ▸ henough)).congr hreceipts

/-! ## Storing a receipt -/

variable {digest : RequestDigest} {outcome : Outcome}

def candidateReceipt (key : ReceiptKey) (digest : RequestDigest) (outcome : Outcome) (now : Int) :
    IdempotencyReceipt :=
  ⟨key.principal, key.incarnation, key.operation, digest, outcome, i64Add now receiptTtlSecs⟩

def roomFor (codec : Codec) (r : Registry) (key : ReceiptKey) (digest : RequestDigest)
    (outcome : Outcome) (now : Int) : Registry :=
  makeRoom codec r key.principal key (codec.receiptBytes (candidateReceipt key digest outcome now))
    now

/-- What `store_receipt` leaves behind its reference; a refusal comes after `make_room`. -/
def afterStore (codec : Codec) (r : Registry) (key : ReceiptKey) (digest : RequestDigest)
    (outcome : Outcome) (now : Int) : Registry :=
  match storeReceipt codec r key digest outcome now with
  | .ok r' => r'
  | .error _ => roomFor codec r key digest outcome now

def principalRows (r : Registry) (principal : String) : List ReceiptRow :=
  r.receipts.entries.filter fun row => row.2.principal = principal

theorem principalRows_new (h : r.receipts.lookup key = none) :
    principalRows r key.principal = principalReceipts r key.principal key := by
  refine filter_congr fun row hrow => ?_
  have hne : row.1 ≠ key := by
    rintro rfl
    rw [Table.lookup_eq_some_iff.mpr hrow] at h
    cases h
  simp [hne]

theorem storeReceipt_eq_ok :
    storeReceipt codec r key digest outcome now = .ok r' ↔
      Fits codec (roomFor codec r key digest outcome now) key
          (codec.receiptBytes (candidateReceipt key digest outcome now)) ∧
        r' = { roomFor codec r key digest outcome now with
          receipts := (roomFor codec r key digest outcome now).receipts.insert key
            (candidateReceipt key digest outcome now) } := by
  unfold storeReceipt
  change (ensure (¬ (((roomFor codec r key digest outcome now).receipts.lookup key).isNone ∧
    (roomFor codec r key digest outcome now).receipts.size ≥ maxReceiptsGlobal)) _ >>= fun _ =>
    ensure (¬ (((roomFor codec r key digest outcome now).receipts.lookup key).isNone ∧
      (principalRows (roomFor codec r key digest outcome now) key.principal).length ≥
        maxReceiptsPerPrincipal)) _ >>= fun _ =>
    ensure (u64Add (receiptsBytes codec (principalReceipts (roomFor codec r key digest outcome now)
      key.principal key)) (codec.receiptBytes (candidateReceipt key digest outcome now)) ≤
        maxReceiptBytesPerPrincipal) _ >>= fun _ =>
    pure { roomFor codec r key digest outcome now with
      receipts := (roomFor codec r key digest outcome now).receipts.insert key
        (candidateReceipt key digest outcome now) }) = .ok r' ↔ _
  generalize roomFor codec r key digest outcome now = room
  have hbytes : min (rowSizes codec (principalReceipts room key.principal key)).sum u64Max +
      codec.receiptBytes (candidateReceipt key digest outcome now) ≤
        maxReceiptBytesPerPrincipal ↔
      (rowSizes codec (principalReceipts room key.principal key)).sum +
        codec.receiptBytes (candidateReceipt key digest outcome now) ≤
        maxReceiptBytesPerPrincipal := by
    have hlimit : maxReceiptBytesPerPrincipal < u64Max := by decide
    omega
  simp only [ensure_bind_ok, charge_le_iff, receiptsBytes_eq, hbytes, pure, Except.pure,
    Except.ok.injEq, eq_comm (b := r')]
  unfold Fits
  cases hl : room.receipts.lookup key with
  | none =>
    rw [principalRows_new hl]
    simp only [Option.isNone_none, true_and, not_le, forall_const, and_assoc]
  | some x => simp

theorem kerase_eq_filter (h : rows.NodupKeys) :
    rows.kerase key = rows.filter fun row => row.1 ≠ key := by
  induction rows with
  | nil => rfl
  | cons row rows ih =>
    obtain ⟨hnotMem, hrows⟩ := List.nodupKeys_cons.mp h
    by_cases hkey : key = row.1
    · have hkeep : ∀ other ∈ rows, decide (other.1 ≠ key) = true := fun other hother => by
        rw [decide_eq_true_eq]
        rintro rfl
        exact hnotMem (hkey ▸ mem_keys_of_mem hother)
      rw [kerase_cons_eq hkey, filter_cons_of_neg (by simp [hkey]),
        List.filter_eq_self.mpr hkeep]
    · rw [kerase_cons_ne hkey, filter_cons_of_pos (by simpa using Ne.symm hkey), ih hrows]

theorem principalRows_insert {x : IdempotencyReceipt} (hx : x.principal = key.principal) :
    principalRows { r with receipts := r.receipts.insert key x } key.principal =
      ⟨key, x⟩ :: principalReceipts r key.principal key := by
  unfold principalRows principalReceipts
  rw [AList.entries_insert, kerase_eq_filter r.receipts.nodupKeys,
    filter_cons_of_pos (by simpa using hx), filter_filter]

theorem size_insert (t : Table ReceiptKey IdempotencyReceipt) (x : IdempotencyReceipt) :
    Table.size (t.insert key x) = if t.lookup key = none then t.size + 1 else t.size := by
  have hlength : Table.size (t.insert key x) = (t.entries.kerase key).length + 1 := by
    rw [Table.size, AList.entries_insert, length_cons]
  rw [hlength]
  split
  case isTrue hnone =>
    rw [kerase_of_notMem_keys (AList.lookup_eq_none.mp hnone), Table.size]
  case isFalse hsome =>
    have hmem : key ∈ t.keys := by
      by_contra hnot
      exact hsome (AList.lookup_eq_none.mpr hnot)
    have hkeys : (t.entries.kerase key).keys.length = (t.keys.erase key).length := by
      rw [keys_kerase]
      rfl
    have hpos : 0 < t.keys.length := length_pos_of_mem hmem
    rw [length_erase_of_mem hmem] at hkeys
    simp only [List.keys, AList.keys, length_map] at hkeys hpos
    rw [Table.size]
    omega

/-- The state after a receipt is admitted. -/
structure ReceiptStored (codec : Codec) (r : Registry) (key : ReceiptKey) (x : IdempotencyReceipt)
    (now : Int) (r' : Registry) : Prop where
  stored : r'.receipts.lookup key = some x
  bytes : (rowSizes codec (principalRows r' key.principal)).sum ≤ maxReceiptBytesPerPrincipal
  total : r.receipts.lookup key = none ∨ r.receipts.size ≤ maxReceiptsGlobal →
    r'.receipts.size ≤ maxReceiptsGlobal
  count : r.receipts.lookup key = none ∨
      (principalReceipts r key.principal key).length < maxReceiptsPerPrincipal →
    (principalRows r' key.principal).length ≤ maxReceiptsPerPrincipal
  /-- The other receipts stay, except for finished ones of the principal. -/
  others : ∀ k, k ≠ key → r'.receipts.lookup k = r.receipts.lookup k ∨
    r'.receipts.lookup k = none ∧ EvictedBy r key.principal key now k
  /-- No finished receipt of the principal stays that expires before one that was evicted. -/
  oldest : ∀ k y k' y', k ≠ key → r.receipts.lookup k = some y → r'.receipts.lookup k = none →
    k' ≠ key → r'.receipts.lookup k' = some y' → y'.principal = key.principal →
    finished r.messages now y' → y.expiresAtEpoch ≤ y'.expiresAtEpoch

theorem sublist_withoutRows :
    (withoutRows r taken).receipts.entries.Sublist r.receipts.entries := filter_sublist

theorem roomFor_sub
    (hmachine : (rowSizes codec (principalReceipts r key.principal key)).sum ≤ u64Max) :
    (roomFor codec r key digest outcome now).receipts.entries.Sublist r.receipts.entries ∧
      (roomFor codec r key digest outcome now).receipts.lookup key = r.receipts.lookup key := by
  rcases @makeRoom_cases codec r key
    (codec.receiptBytes (candidateReceipt key digest outcome now)) now
    hmachine with ⟨hsame, -⟩ | ⟨taken, rest, ⟨hsplit, hroom⟩, -⟩
  · rw [roomFor, hsame]
    exact ⟨List.Sublist.refl _, rfl⟩
  · rw [roomFor, hroom]
    exact ⟨sublist_withoutRows, lookup_withoutRows fun row hrow =>
      evictable_others (hsplit ▸ mem_append_left rest hrow)⟩

theorem fits_room_iff
    (hmachine : (rowSizes codec (principalReceipts r key.principal key)).sum ≤ u64Max) :
    Fits codec (makeRoom codec r key.principal key size now) key size ↔
      Fits codec (withoutFinished r key now) key size := by
  have hfinished : ∀ row ∈ evictable codec r key.principal key now,
      row ∈ principalReceipts r key.principal key := fun _ => evictable_others
  have hlookup : (withoutFinished r key now).receipts.lookup key = r.receipts.lookup key :=
    @withoutRows_evictable codec r key now ▸ lookup_withoutRows hfinished
  rcases @makeRoom_cases codec r key size now hmachine with
    ⟨hsame, hfits⟩ | ⟨taken, rest, ⟨hsplit, hroom⟩, hfits⟩
  · rw [hsame]
    constructor
    · exact fun h => h.mono filter_sublist fun hnone => hlookup ▸ hnone
    · exact fun h => hfits.resolve_right (not_not_intro h)
  · refine ⟨fun h => h.mono ?_ fun hnone => ?_, fun _ => hfits⟩
    · rw [hroom, ← @withoutRows_evictable codec r key now, hsplit]
      refine monotone_filter_right _ fun row hrow => ?_
      simp only [map_append, mem_append, not_or, decide_eq_true_eq] at hrow ⊢
      exact hrow.1
    · rw [hroom, lookup_withoutRows fun row hrow =>
        hfinished row (hsplit ▸ mem_append_left rest hrow)]
      exact hlookup ▸ hnone

theorem pairwise_evictable :
    (evictable codec r key.principal key now).Pairwise fun row row' =>
      row.2.expiresAtEpoch ≤ row'.2.expiresAtEpoch := by
  refine (pairwise_sortBy (fun a b => ?_) (fun {a b c} hab hbc => ?_) _).imp fun h => ?_
  · have htexts := textLe_total (codec.receiptKeyText a.1) (codec.receiptKeyText b.1)
    rw [Bool.or_eq_true] at htexts
    simp only [Bool.or_eq_true, Bool.and_eq_true, decide_eq_true_eq]
    rcases lt_trichotomy a.2.expiresAtEpoch b.2.expiresAtEpoch with hlt | heq | hgt
    · exact .inl (.inl hlt)
    · exact htexts.imp (fun h => .inr ⟨heq, h⟩) fun h => .inr ⟨heq.symm, h⟩
    · exact .inr (.inl hgt)
  · simp only [Bool.or_eq_true, Bool.and_eq_true, decide_eq_true_eq] at hab hbc ⊢
    rcases hab with hab | ⟨hab, ht⟩ <;> rcases hbc with hbc | ⟨hbc, ht'⟩
    · exact .inl (hab.trans hbc)
    · exact .inl (hbc ▸ hab)
    · exact .inl (hab ▸ hbc)
    · exact .inr ⟨hab.trans hbc, textLe_trans ht ht'⟩
  · simp only [Bool.or_eq_true, Bool.and_eq_true, decide_eq_true_eq] at h
    omega

theorem evicted_oldest
    (hmachine : (rowSizes codec (principalReceipts r key.principal key)).sum ≤ u64Max)
    {k k' : ReceiptKey} {y y' : IdempotencyReceipt} (hk : r.receipts.lookup k = some y)
    (hgone : (makeRoom codec r key.principal key size now).receipts.lookup k = none)
    (hne : k' ≠ key)
    (hk' : (makeRoom codec r key.principal key size now).receipts.lookup k' = some y')
    (hprincipal : y'.principal = key.principal) (hfin : finished r.messages now y') :
    y.expiresAtEpoch ≤ y'.expiresAtEpoch := by
  rcases @makeRoom_cases codec r key size now hmachine with
    ⟨hsame, -⟩ | ⟨taken, rest, ⟨hsplit, hroom⟩, -⟩
  · rw [hsame, hk] at hgone
    cases hgone
  · rw [hroom] at hgone hk'
    simp only [withoutRows, Table.lookup_filter, Option.filter_eq_none_iff,
      Option.filter_eq_some_iff, decide_eq_true_eq, not_not] at hgone hk'
    obtain ⟨row, hrow, rfl⟩ := List.mem_map.mp (hgone y hk)
    have hmem : row ∈ r.receipts.entries :=
      (List.mem_filter.mp (evictable_others (hsplit ▸ mem_append_left rest hrow))).1
    obtain rfl : row.2 = y := Option.some.inj ((Table.lookup_eq_some_iff.mpr hmem).symm.trans hk)
    have hstays : (⟨k', y'⟩ : ReceiptRow) ∈ taken ++ rest := by
      rw [← hsplit]
      exact mem_sortBy.mpr (List.mem_filter.mpr ⟨List.mem_filter.mpr
        ⟨Table.lookup_eq_some_iff.mp hk'.1, by simp [hprincipal, hne]⟩, hfin⟩)
    have hrest : (⟨k', y'⟩ : ReceiptRow) ∈ rest :=
      (List.mem_append.mp hstays).resolve_left fun h => hk'.2 (List.mem_map.mpr ⟨_, h, rfl⟩)
    have hsorted := @pairwise_evictable codec r key now
    rw [hsplit] at hsorted
    exact (List.pairwise_append.mp hsorted).2.2 row hrow _ hrest

theorem receiptStored
    (hmachine : (rowSizes codec (principalReceipts r key.principal key)).sum ≤ u64Max)
    (h : storeReceipt codec r key digest outcome now = .ok r') :
    ReceiptStored codec r key (candidateReceipt key digest outcome now) now r' := by
  obtain ⟨hsub, hkey⟩ := @roomFor_sub codec r key now digest outcome hmachine
  have hothers : ∀ k, k ≠ key → r'.receipts.lookup k = r.receipts.lookup k ∨
      (r'.receipts.lookup k = none ∧ EvictedBy r key.principal key now k) := by
    obtain ⟨receipts, evictions, rfl, -, hothers⟩ := storeReceipt_spec h
    exact hothers
  obtain ⟨⟨hcounts, hbytes⟩, rfl⟩ := storeReceipt_eq_ok.mp h
  have hrows := @principalRows_insert (roomFor codec r key digest outcome now) key
    (candidateReceipt key digest outcome now) rfl
  have hfewer := (hsub.filter fun row =>
    row.2.principal = key.principal && row.1 ≠ key).length_le
  refine ⟨AList.lookup_insert _, ?_, fun hbefore => ?_, fun hbefore => ?_, hothers, ?_⟩
  · rw [hrows, rowSizes, map_cons, sum_cons, Nat.add_comm]
    exact hbytes
  · rw [size_insert]
    split
    case isTrue hnone => exact (hcounts hnone).1
    case isFalse hsome =>
      rw [hkey] at hsome
      exact le_trans hsub.length_le (hbefore.resolve_left hsome)
  · rw [hrows, length_cons]
    rcases hbefore with hnone | hroom
    · exact (hcounts (hkey.trans hnone)).2
    · exact lt_of_le_of_lt hfewer hroom
  · intro k y k' y' hne hk hgone hne' hk' hprincipal hfin
    rw [AList.lookup_insert_ne hne] at hgone
    rw [AList.lookup_insert_ne hne'] at hk'
    exact evicted_oldest hmachine hk hgone hne' hk' hprincipal hfin

/-! ## The limits -/

theorem makeRoom_sublist {principal : String} :
    (makeRoom codec r principal key size now).receipts.entries.Sublist r.receipts.entries := by
  unfold makeRoom
  dsimp only
  split_ifs
  · exact List.Sublist.refl _
  · exact List.Sublist.refl _
  · exact filter_sublist

/-- The count limits of the table. -/
structure CountsKept (t : Table ReceiptKey IdempotencyReceipt) : Prop where
  global : t.size ≤ maxReceiptsGlobal
  each : ∀ principal, (t.keys.filter fun k => k.principal = principal).length ≤
    maxReceiptsPerPrincipal

variable {t t' : Table ReceiptKey IdempotencyReceipt} {x : IdempotencyReceipt}

theorem CountsKept.mono (h : CountsKept t) (hsub : t'.keys.Subperm t.keys) : CountsKept t' where
  global := by
    have hlength := hsub.length_le
    simp only [AList.keys, List.keys, length_map] at hlength
    exact hlength.trans h.global
  each principal := ((hsub.filter _).length_le).trans (h.each principal)

/-- A new key needs room, a key of the table does not. -/
theorem CountsKept.insert (h : CountsKept t) (hsub : t'.entries.Sublist t.entries)
    (hroom : t.lookup key = none → t'.size < maxReceiptsGlobal ∧
      (t'.keys.filter fun k => k.principal = key.principal).length < maxReceiptsPerPrincipal) :
    CountsKept (t'.insert key x) := by
  have hkeys : t'.keys.Sublist t.keys := hsub.map _
  by_cases hnone : t.lookup key = none
  case neg =>
    have hmem : key ∈ t.keys := by
      by_contra hnot
      exact hnone (AList.lookup_eq_none.mpr hnot)
    refine h.mono (subperm_of_subset (t'.insert key x).keys_nodup ?_)
    rw [AList.keys_insert]
    exact cons_subset.mpr ⟨hmem, fun k hk => hkeys.subset (List.mem_of_mem_erase hk)⟩
  case pos =>
    obtain ⟨hglobal, heach⟩ := hroom hnone
    have hnew : key ∉ t'.keys := fun hmem =>
      AList.lookup_eq_none.mp hnone (AList.mem_keys.mpr (hkeys.subset hmem))
    have hinserted : (t'.insert key x).keys = key :: t'.keys := by
      rw [AList.keys_insert, erase_of_not_mem hnew]
    refine ⟨(Table.size_insert_le _ _ _).trans hglobal, fun principal => ?_⟩
    rw [hinserted, filter_cons]
    split
    case isTrue hp =>
      obtain rfl := of_decide_eq_true hp
      exact heach
    case isFalse => exact ((hkeys.filter _).length_le).trans (h.each principal)

theorem AllFiled.mono (hf : AllFiled r) (hsub : r'.receipts.entries.Sublist r.receipts.entries) :
    AllFiled r' := fun k y hy =>
  hf k y (Table.lookup_eq_some_iff.mpr (hsub.subset (Table.lookup_eq_some_iff.mp hy)))

theorem principalRows_length (hf : AllFiled r) (principal : String) :
    (principalRows r principal).length =
      (r.receipts.keys.filter fun k => k.principal = principal).length := by
  rw [AList.keys, List.keys, filter_map, length_map, principalRows]
  congr 1
  refine filter_congr fun row hrow => ?_
  have hprincipal := (hf row.1 row.2 (Table.lookup_eq_some_iff.mpr hrow)).principal
  simp [hprincipal]

theorem CountsKept.stored (hc : CountsKept r.receipts) (hf : AllFiled r)
    (h : storeReceipt codec r key digest outcome now = .ok r') : CountsKept r'.receipts := by
  obtain ⟨⟨hcounts, -⟩, rfl⟩ := storeReceipt_eq_ok.mp h
  have hsub : (roomFor codec r key digest outcome now).receipts.entries.Sublist
      r.receipts.entries := makeRoom_sublist
  refine hc.insert hsub fun hnone => ?_
  have hnone' : (roomFor codec r key digest outcome now).receipts.lookup key = none :=
    AList.lookup_eq_none.mpr fun hmem =>
      AList.lookup_eq_none.mp hnone (AList.mem_keys.mpr ((hsub.map _).subset (AList.mem_keys.mp hmem)))
  refine ⟨(hcounts hnone').1, ?_⟩
  rw [← principalRows_length (hf.mono hsub), principalRows_new hnone']
  exact (hcounts hnone').2

theorem Move.countsKept {env : Env} {renews : OperationLease → Prop}
    (h : Move codec env renews r r') (hf : AllFiled r) (hc : CountsKept r.receipts) :
    CountsKept r'.receipts := by
  cases h with
  | mail | fingerprint | dropCursors | keepCursor | leases | claims | endWork | retireClaims
    | dropEvents | addEvent | brokers => exact hc
  | dropReceipts => exact hc.mono ((filter_sublist.map _).subperm)
  | store key digest outcome hop free hstore => exact hc.stored hf hstore
  | drain event lease now hnow hevent hlease accepts hstore =>
    exact (hc.stored hf hstore).mono (Subperm.refl _)
  | accept envelope outcome free hstore =>
    refine (hc.stored hf hstore).mono ?_
    simpa [extendReceipt, Table.modify, Table.mapVal, AList.keys, List.keys, Function.comp_def]
      using Subperm.refl (map Sigma.fst _)

theorem SectionMoves.countsKept {env : Env} {renews : OperationLease → Prop}
    (h : SectionMoves codec env renews r r') (hk : AllFiled r ∧ CountsKept r.receipts) :
    AllFiled r' ∧ CountsKept r'.receipts := by
  have hmoves : ∀ {r r'}, Moves codec env renews r r' → AllFiled r ∧ CountsKept r.receipts →
      AllFiled r' ∧ CountsKept r'.receipts := by
    intro r r' h hk
    induction h with
    | refl => exact hk
    | tail _ hm ih => exact ⟨hm.filed ih.1, hm.countsKept ih.1 ih.2⟩
  obtain ⟨r₁, r₂, h₁, hadd, h₂⟩ := h
  have hk₁ := hmoves h₁ hk
  refine hmoves h₂ ?_
  rcases hadd with rfl | hadd
  · exact hk₁
  · cases hadd with
    | claim | lease | message => exact hk₁

theorem countsKept_of_reach {s : State} (h : (system codec).Reach s) :
    AllFiled s.registry ∧ CountsKept s.registry.receipts := by
  have hboth := Lts.Reach.invariant (S := system codec)
    (I := fun s : State => Sound s ∧ AllFiled s.registry ∧ CountsKept s.registry.receipts) ?_ ?_ h
  · exact hboth.2
  · rintro s rfl
    refine ⟨sound_of_reach (Lts.Reach.init (S := system codec) rfl), ?_, ?_⟩
    · exact fun k x hx => nomatch hx
    · exact ⟨Nat.zero_le _, fun _ => Nat.zero_le _⟩
  · rintro l s s' ⟨hs, hk⟩ hst
    refine ⟨hs.step hst, ?_⟩
    obtain ⟨-, rfl⟩ := hst
    exact (exec_moves hs.work l.2).countsKept hk

/-- The three limits of `store_receipt`. -/
structure LimitsHold (codec : Codec) (r : Registry) (principal : String) : Prop where
  global : r.receipts.size ≤ maxReceiptsGlobal
  count : (principalRows r principal).length ≤ maxReceiptsPerPrincipal
  bytes : (rowSizes codec (principalRows r principal)).sum ≤ maxReceiptBytesPerPrincipal

/-- The new receipt in a table without any finished receipt of its principal. -/
def clearedFor (r : Registry) (key : ReceiptKey) (x : IdempotencyReceipt) (now : Int) : Registry :=
  { r with
    receipts := (Table.filter (fun _ y =>
      !(y.principal = key.principal && finished r.messages now y)) r.receipts).insert key x }

theorem fits_iff_limits (hf : AllFiled r) (hc : CountsKept r.receipts) (hx : Filed key x) :
    Fits codec (withoutFinished r key now) key (codec.receiptBytes x) ↔
      LimitsHold codec (clearedFor r key x now) key.principal := by
  have hothers : principalReceipts { r with receipts := Table.filter (fun _ y =>
        !(y.principal = key.principal && finished r.messages now y)) r.receipts }
      key.principal key = principalReceipts (withoutFinished r key now) key.principal key := by
    simp only [principalReceipts, withoutFinished, Table.filter, filter_filter]
    refine filter_congr fun row _ => ?_
    by_cases hp : row.2.principal = key.principal <;> by_cases hk : row.1 = key <;> simp [hp, hk]
  have hrows := @principalRows_insert { r with receipts := Table.filter (fun _ y =>
    !(y.principal = key.principal && finished r.messages now y)) r.receipts } key x hx.principal
  rw [hothers] at hrows
  have hkept : r.receipts.lookup key ≠ none → CountsKept (clearedFor r key x now).receipts :=
    fun hsome => hc.insert filter_sublist fun hnone => absurd hnone hsome
  have hfiled : AllFiled (clearedFor r key x now) := fun k y hy => by
    by_cases hk : k = key
    · subst hk
      rw [clearedFor, AList.lookup_insert] at hy
      exact Option.some.inj hy ▸ hx
    · rw [clearedFor, AList.lookup_insert_ne hk, Table.lookup_filter,
        Option.filter_eq_some_iff] at hy
      exact hf k y hy.1
  have hbytes : (rowSizes codec (principalRows (clearedFor r key x now) key.principal)).sum =
      (rowSizes codec (principalReceipts (withoutFinished r key now) key.principal key)).sum +
        codec.receiptBytes x := by
    rw [clearedFor, hrows, rowSizes, map_cons, sum_cons, Nat.add_comm]
    rfl
  have hcount : (principalRows (clearedFor r key x now) key.principal).length =
      (principalReceipts (withoutFinished r key now) key.principal key).length + 1 := by
    rw [clearedFor, hrows, length_cons]
  -- a key of the table replaces its receipt, and the counts hold as they did
  by_cases hnone : r.receipts.lookup key = none
  case neg =>
    have hstays : (withoutFinished r key now).receipts.lookup key ≠ none := by
      obtain ⟨y, hy⟩ := Option.ne_none_iff_exists'.mp hnone
      rw [withoutFinished, Table.lookup_filter, hy]
      simp
    refine ⟨fun h => ⟨(hkept hnone).global, ?_, hbytes ▸ h.2⟩, fun h => ⟨fun hgone =>
      absurd hgone hstays, hbytes ▸ h.bytes⟩⟩
    exact (principalRows_length hfiled _).trans_le ((hkept hnone).each _)
  case pos =>
    have hnew : ∀ row ∈ r.receipts.entries, row.1 ≠ key := by
      rintro row hrow rfl
      rw [Table.lookup_eq_some_iff.mpr hrow] at hnone
      cases hnone
    have hsame : Table.filter (fun _ y => !(y.principal = key.principal &&
        finished r.messages now y)) r.receipts = (withoutFinished r key now).receipts :=
      AList.ext (filter_congr fun row hrow => by simp [hnew row hrow])
    have hgone : (withoutFinished r key now).receipts.lookup key = none := by
      rw [withoutFinished, Table.lookup_filter, hnone]
      rfl
    have hsize : (clearedFor r key x now).receipts.size =
        (withoutFinished r key now).receipts.size + 1 := by
      rw [clearedFor, hsame, size_insert, if_pos hgone]
    constructor
    · rintro ⟨hcounts, hsum⟩
      exact ⟨hsize ▸ (hcounts hgone).1, hcount ▸ (hcounts hgone).2, hbytes ▸ hsum⟩
    · rintro ⟨hglobal, heach, hsum⟩
      rw [hsize] at hglobal
      rw [hcount] at heach
      exact ⟨fun _ => ⟨hglobal, heach⟩, hbytes ▸ hsum⟩

/-- `store_receipt` is exact: it admits a receipt if and only if it fits without the finished
receipts of its principal, evicts such receipts only, oldest first, keeps the limits, and leaves
the registry as it was when it refuses. Every table of a run is within the count limits. Receipts of
one principal have less than `2 ^ 64` bytes. -/
theorem receipt_admission (codec : Codec) (r : Registry) (key : ReceiptKey)
    (digest : RequestDigest) (outcome : Outcome) (now : Int)
    (hmachine : (rowSizes codec (principalReceipts r key.principal key)).sum ≤ u64Max) :
    (∀ s : State, (system codec).Reach s →
      AllFiled s.registry ∧ CountsKept s.registry.receipts) ∧
    (AllFiled r → CountsKept r.receipts →
      ((∃ r', storeReceipt codec r key digest outcome now = .ok r') ↔
        LimitsHold codec (clearedFor r key (candidateReceipt key digest outcome now) now)
          key.principal) ∧
      ∀ r', storeReceipt codec r key digest outcome now = .ok r' →
        LimitsHold codec r' key.principal ∧ AllFiled r' ∧ CountsKept r'.receipts) ∧
    ((∃ r', storeReceipt codec r key digest outcome now = .ok r') ↔
      Fits codec (withoutFinished r key now) key
        (codec.receiptBytes (candidateReceipt key digest outcome now))) ∧
    (∀ r', storeReceipt codec r key digest outcome now = .ok r' →
      ReceiptStored codec r key (candidateReceipt key digest outcome now) now r') ∧
    (∀ e, storeReceipt codec r key digest outcome now = .error e →
      afterStore codec r key digest outcome now = r) := by
  have hfits : Fits codec (roomFor codec r key digest outcome now) key
      (codec.receiptBytes (candidateReceipt key digest outcome now)) ↔ _ := fits_room_iff hmachine
  have hadmits : (∃ r', storeReceipt codec r key digest outcome now = .ok r') ↔ _ :=
    ⟨fun ⟨r', h⟩ => hfits.mp (storeReceipt_eq_ok.mp h).1,
      fun h => ⟨_, storeReceipt_eq_ok.mpr ⟨hfits.mpr h, rfl⟩⟩⟩
  refine ⟨fun s => countsKept_of_reach, fun hf hc => ⟨?_, fun r' h => ?_⟩, hadmits,
    fun r' h => receiptStored hmachine h, fun e h => ?_⟩
  · exact hadmits.trans (fits_iff_limits hf hc ⟨rfl, rfl, rfl⟩)
  · have hf' := hf.stored h
    have hc' := hc.stored hf h
    exact ⟨⟨hc'.global, principalRows_length hf' _ ▸ hc'.each _, (receiptStored hmachine h).bytes⟩,
      hf', hc'⟩
  · have hnot : ¬ Fits codec (roomFor codec r key digest outcome now) key
        (codec.receiptBytes (candidateReceipt key digest outcome now)) := fun hfit => by
      cases (storeReceipt_eq_ok.mpr ⟨hfit, rfl⟩).symm.trans h
    rw [afterStore, h]
    rcases makeRoom_cases hmachine with ⟨hsame, -⟩ | ⟨-, -, -, hfit⟩
    · exact hsame
    · exact absurd hfit hnot

/-! A full principal: its receipts expire at 100000. -/

def crowdedKey (n : Nat) : ReceiptKey :=
  ⟨"remote", "inc-1", .messageSend, String.ofList (List.replicate n 'k')⟩

def crowded (count : Nat) : Registry :=
  { Registry.empty with
    receipts := {
      entries := (List.range count).map fun n =>
        ⟨crowdedKey n, ⟨"remote", "inc-1", .messageSend, .claimRevision "c" 1, .unit, 100000⟩⟩
      nodupKeys := by
        rw [List.NodupKeys, List.keys, List.map_map]
        refine List.Nodup.map (fun m n h => ?_) List.nodup_range
        have := congrArg (fun key : ReceiptKey => key.key.length) h
        simpa [crowdedKey] using this } }

theorem crowded_spec (count : Nat) :
    (crowded count).receipts.entries.length = count ∧
      ∀ row ∈ (crowded count).receipts.entries, row.1.principal = "remote" ∧
        Filed row.1 row.2 ∧ row.2.expiresAtEpoch = 100000 ∧ row.2.outcome.messageId? = none := by
  refine ⟨(List.length_map _).trans List.length_range, fun row hrow => ?_⟩
  obtain ⟨n, -, rfl⟩ := List.mem_map.mp hrow
  exact ⟨rfl, ⟨rfl, rfl, rfl⟩, rfl, rfl⟩

theorem crowded_rows (count : Nat) :
    principalReceipts (crowded count) "remote" (crowdedKey count) =
      (crowded count).receipts.entries := by
  refine List.filter_eq_self.mpr fun row hrow => ?_
  obtain ⟨n, hn, rfl⟩ := List.mem_map.mp hrow
  have hkey : crowdedKey n ≠ crowdedKey count := fun h => by
    have := congrArg (fun key : ReceiptKey => key.key.length) h
    have := List.mem_range.mp hn
    simp [crowdedKey] at *
    omega
  simp [hkey]

/-- The full principal gets a receipt when the others have expired, and not before. -/
theorem receipt_admission_crowded :
    let r := crowded maxReceiptsPerPrincipal
    let key := crowdedKey maxReceiptsPerPrincipal
    (principalRows r "remote").length = maxReceiptsPerPrincipal ∧
      (∃ r', storeReceipt sampleCodec r key (.claimRevision "c" 1) .unit 100000 = .ok r' ∧
        LimitsHold sampleCodec r' "remote") ∧
      ¬ ∃ r', storeReceipt sampleCodec r key (.claimRevision "c" 1) .unit 0 = .ok r' := by
  generalize hmax : maxReceiptsPerPrincipal = count
  intro r key
  obtain ⟨hentries, hrow⟩ : r.receipts.entries.length = count ∧ _ := crowded_spec count
  have hothers : principalReceipts r "remote" key = r.receipts.entries := crowded_rows count
  have hf : AllFiled r := fun k x hx => (hrow ⟨k, x⟩ (Table.lookup_eq_some_iff.mp hx)).2.1
  have hc : CountsKept r.receipts := by
    have hkeys : r.receipts.keys.length = count := (List.length_map _).trans hentries
    refine ⟨hentries.le.trans ?_, fun p => (List.length_filter_le _ _).trans (hkeys.trans hmax.symm).le⟩
    rw [← hmax]
    decide
  have hmachine : (rowSizes sampleCodec (principalReceipts r "remote" key)).sum ≤ u64Max := by
    have hconst : rowSizes sampleCodec (principalReceipts r "remote" key) = replicate count 600 := by
      rw [hothers, ← hentries]
      exact map_const'
    rw [hconst, sum_replicate_nat, ← hmax]
    decide
  have hadmits := receipt_admission sampleCodec r key (.claimRevision "c" 1) .unit
  obtain ⟨-, hlimits, hthen, -, -⟩ := hadmits 100000 hmachine
  obtain ⟨-, -, hnow, -, -⟩ := hadmits 0 hmachine
  refine ⟨?_, ?_, fun h => ?_⟩
  · rw [principalRows, List.filter_eq_self.mpr fun row h => ?_, hentries]
    simp [(hrow row h).2.1.principal, (hrow row h).1]
  · have hnone : (withoutFinished r key 100000).receipts.entries = [] := by
      refine List.filter_eq_nil_iff.mpr fun row h => ?_
      have hmem : row ∈ principalReceipts r "remote" key := hothers ▸ h
      have hother := (List.mem_filter.mp hmem).2
      have hfin : finished r.messages 100000 row.2 := finished_iff.mpr (.inl (hrow row h).2.2.1.le)
      change ¬ (!(row.2.principal = "remote" && row.1 ≠ key &&
        finished r.messages 100000 row.2)) = true
      rw [hother, hfin]
      decide
    have hfits : Fits sampleCodec (withoutFinished r key 100000) key 600 := by
      refine ⟨fun _ => ?_, ?_⟩ <;> simp only [Table.size, principalReceipts, hnone, filter_nil]
      · exact ⟨by decide, by decide⟩
      · exact (by decide : 600 ≤ maxReceiptBytesPerPrincipal)
    obtain ⟨r', h⟩ := hthen.mpr hfits
    exact ⟨r', h, ((hlimits hf hc).2 r' h).1⟩
  · have htable : (withoutFinished r key 0).receipts = r.receipts := by
      refine AList.ext (List.filter_eq_self.mpr fun row h => ?_)
      simp [finished, (hrow row h).2.2.1, (hrow row h).2.2.2]
    have hnew : r.receipts.lookup key = none := by
      by_contra hsome
      obtain ⟨x, hx⟩ := Option.ne_none_iff_exists'.mp hsome
      have hmem : ⟨key, x⟩ ∈ principalReceipts r "remote" key :=
        hothers ▸ Table.lookup_eq_some_iff.mp hx
      simpa using (List.mem_filter.mp hmem).2
    have hlt : (principalReceipts r "remote" key).length < maxReceiptsPerPrincipal := by
      have hcount := ((hnow.mp h).1 (htable ▸ hnew)).2
      rwa [principalReceipts, htable] at hcount
    rw [hothers, hentries, hmax] at hlt
    exact lt_irrefl _ hlt

end NilsCli.Coordination
