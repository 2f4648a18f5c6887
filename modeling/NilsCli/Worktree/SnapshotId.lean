import NilsCli.Worktree.Snapshot

/-!
# What a snapshot identity determines

Two checkouts with one `snapshot_id` have the same hashed text, if SHA-256 has no collision at their
texts; the text determines its fields (`framed_inj`), and the tags that open a block cut the fields
into one block for each index entry and each untracked path (`flatten_inj`).
-/

namespace NilsCli.Worktree

open Lib List

variable {output : Output} {raw branch : Bytes} {node : Node}

variable {sha : Bytes → Digest}

/-! ## Hexadecimal text -/

theorem hexDigits_inj : ∀ n < 16, ∀ m < 16, hexDigits.getD n 0 = hexDigits.getD m 0 → n = m := by
  decide

theorem hexBytes_cons (byte : UInt8) (bytes : Bytes) : hexBytes (byte :: bytes) =
    hexDigits.getD (byte.toNat / 16) 0 :: hexDigits.getD (byte.toNat % 16) 0 :: hexBytes bytes := rfl

theorem hexBytes_inj {a b : Bytes} (h : hexBytes a = hexBytes b) : a = b := by
  induction a generalizing b with
  | nil =>
    cases b with
    | nil => rfl
    | cons byte b => cases h
  | cons byte a ih =>
    cases b with
    | nil => cases h
    | cons byte' b =>
      rw [hexBytes_cons, hexBytes_cons, List.cons.injEq, List.cons.injEq] at h
      have hlt : byte.toNat < 256 := byte.toNat_lt
      have hlt' : byte'.toNat < 256 := byte'.toNat_lt
      have hhigh := hexDigits_inj _ (by omega) _ (by omega) h.1
      have hlow := hexDigits_inj _ (by omega) _ (by omega) h.2.1
      have hbyte : byte = byte' := UInt8.toNat_inj.mp (by omega)
      rw [hbyte, ih h.2.2]

theorem length_hexBytes (bytes : Bytes) : (hexBytes bytes).length = 2 * bytes.length := by
  induction bytes with
  | nil => rfl
  | cons byte bytes ih =>
    rw [hexBytes_cons, length_cons, length_cons, ih, length_cons]
    omega

/-! ## What a listing is bounded by -/

theorem snapshotGitOutput_ok {output' : Output} {limit : Nat}
    (h : snapshotGitOutput output limit = .ok output') :
    output' = output ∧ output.stdout.length ≤ limit := by
  rw [snapshotGitOutput, ensure_bind_ok] at h
  exact ⟨(Except.ok.inj h.2).symm, h.1⟩

theorem length_stripSuffix (raw : Bytes) (byte : UInt8) :
    (stripSuffix raw byte).length ≤ raw.length := by
  unfold stripSuffix
  split
  · simp
  · exact le_rfl

theorem stripGitLine_ok {line : Bytes} (h : stripGitLine raw = .ok line) :
    line.length ≤ raw.length := by
  rw [stripGitLine, ensure_bind_ok] at h
  obtain rfl := Except.ok.inj h.2
  exact (length_stripSuffix _ _).trans (length_stripSuffix _ _)

theorem chargePath_ok {budget budget' : SnapshotBudget} {bytes : Nat}
    (h : budget.chargePath bytes = .ok budget') : bytes ≤ maxPathBytes := by
  rw [SnapshotBudget.chargePath, ensure_bind_ok, ensure_bind_ok] at h
  omega

section
variable {α : Type} {tooMany : String} {parse : Bytes → Except String α} {path : α → Bytes}
  {entryLimit : Nat} {budget budget' : SnapshotBudget}

theorem parseRecords_ok {records : List Bytes} {entries parsed : List α}
    (h : parseRecords tooMany parse path entryLimit records entries budget = .ok (parsed, budget')) :
    ∀ entry ∈ parsed, entry ∈ entries ∨
      (∃ record, parse record = .ok entry) ∧ (path entry).length ≤ maxPathBytes := by
  induction records generalizing entries budget with
  | nil =>
    cases h
    exact fun entry hmem => .inl hmem
  | cons record records ih =>
    rw [parseRecords, ensure_bind_ok, bind_eq_ok] at h
    obtain ⟨-, entry, hparse, h⟩ := h
    rw [bind_eq_ok] at h
    obtain ⟨_, -, h⟩ := h
    rw [bind_eq_ok] at h
    obtain ⟨charged, hcharge, h⟩ := h
    intro other hmem
    rcases ih h other hmem with hold | hnew
    · rcases List.mem_append.mp hold with hold | hlast
      · exact .inl hold
      · obtain rfl := List.mem_singleton.mp hlast
        exact .inr ⟨⟨record, hparse⟩, chargePath_ok hcharge⟩
    · exact .inr hnew

theorem parseBounded_ok {parsed : List α}
    (h : parseBounded tooMany parse path raw entryLimit budget = .ok (parsed, budget')) :
    ∀ entry ∈ parsed,
      (∃ record, parse record = .ok entry) ∧ (path entry).length ≤ maxPathBytes := by
  rw [parseBounded, bind_eq_ok] at h
  obtain ⟨payload, -, h⟩ := h
  intro entry hmem
  split at h
  · cases h
    cases hmem
  · exact (parseRecords_ok h entry hmem).resolve_left fun hnil => by cases hnil

end

theorem parseIndexRecord_ok {record : Bytes} {entry : IndexEntry}
    (h : parseIndexRecord record = .ok entry) : entry.mode.length = 6 ∧ entry.oid.length ≤ 64 := by
  rw [parseIndexRecord, orErr_bind_ok] at h
  obtain ⟨tab, -, h⟩ := h
  split at h
  · rw [ensure_bind_ok, ensure_bind_ok, ensure_bind_ok, ensure_bind_ok] at h
    obtain ⟨hmode, hoid, -, -, h⟩ := h
    cases h
    exact ⟨hmode.1, hoid.2.1⟩
  · cases h

theorem readBranch_ok (h : readBranch output = .ok branch) :
    branch.length ≤ 4096 := by
  rw [readBranch, bind_eq_ok] at h
  obtain ⟨captured, hcaptured, h⟩ := h
  obtain ⟨rfl, hlength⟩ := snapshotGitOutput_ok hcaptured
  split at h
  · exact (stripGitLine_ok h).trans hlength
  · split at h
    · cases h
      exact Nat.zero_le _
    · cases h

theorem readHead_ok {checkout : Checkout} {head : Bytes}
    (h : readHead sha checkout branch = .ok head) : head.length ≤ 71 := by
  rw [readHead, bind_eq_ok] at h
  obtain ⟨captured, -, h⟩ := h
  split at h
  · rw [bind_eq_ok] at h
    obtain ⟨raw, -, h⟩ := h
    rw [ensure_bind_ok] at h
    obtain ⟨hlength, h⟩ := h
    cases h
    omega
  · split at h
    · rw [validateUnbornHead, ensure_bind_ok, bind_eq_ok] at h
      obtain ⟨-, output, -, h⟩ := h
      rw [ensure_bind_ok] at h
      obtain rfl := Except.ok.inj h.2
      have hprefix : (ascii "unborn:").length = 7 := by decide
      rw [unbornHeadIdentity, length_append, hprefix, finish, length_hexBytes, (sha _).2]
    · cases h

/-- The bounds of what is hashed. -/
structure Listing.Fits (listing : Listing) : Prop where
  branchRaw : listing.branchRaw.length < 2 ^ 64
  headOid : listing.headOid.length < 2 ^ 64
  tracked : ∀ entry ∈ listing.tracked, entry.mode.length < 2 ^ 64 ∧ entry.oid.length < 2 ^ 64 ∧
    entry.path.length < 2 ^ 64
  untracked : ∀ path ∈ listing.untracked, path.length < 2 ^ 64
  unstaged : ∀ path ∈ listing.unstaged, path ∈ listing.tracked.map (·.path)

theorem readListing_ok {checkout : Checkout} {listing : Listing} {budget : SnapshotBudget}
    (h : readListing sha checkout = .ok (listing, budget)) : listing.Fits := by
  rw [readListing, bind_eq_ok] at h
  obtain ⟨_, -, h⟩ := h
  rw [bind_eq_ok] at h
  obtain ⟨branchRaw, hbranch, h⟩ := h
  rw [bind_eq_ok] at h
  obtain ⟨headOid, hhead, h⟩ := h
  rw [bind_eq_ok] at h
  obtain ⟨index, -, h⟩ := h
  rw [ensure_bind_ok, bind_eq_ok] at h
  obtain ⟨-, ⟨tracked, indexBudget⟩, htracked, h⟩ := h
  rw [bind_eq_ok] at h
  obtain ⟨flags, -, h⟩ := h
  rw [ensure_bind_ok, bind_eq_ok] at h
  obtain ⟨-, flagBudget, -, h⟩ := h
  rw [bind_eq_ok] at h
  obtain ⟨_, -, h⟩ := h
  rw [bind_eq_ok] at h
  obtain ⟨staged, -, h⟩ := h
  rw [ensure_bind_ok, bind_eq_ok] at h
  obtain ⟨-, names, -, h⟩ := h
  rw [ensure_bind_ok, bind_eq_ok] at h
  obtain ⟨-, ⟨unstaged, nameBudget⟩, -, h⟩ := h
  rw [bind_eq_ok] at h
  obtain ⟨others, -, h⟩ := h
  rw [ensure_bind_ok, bind_eq_ok] at h
  obtain ⟨-, ⟨untracked, otherBudget⟩, huntracked, h⟩ := h
  rw [ensure_bind_ok] at h
  dsimp only [ensureUniquePaths] at h
  rw [ensure_bind_ok, ensure_bind_ok, ensure_bind_ok, bind_eq_ok] at h
  obtain ⟨-, -, -, -, _, -, h⟩ := h
  rw [ensure_bind_ok] at h
  obtain ⟨hunstaged, h⟩ := h
  cases h
  have hbranch := readBranch_ok hbranch
  have hhead := readHead_ok hhead
  refine ⟨by dsimp only; omega, by dsimp only; omega, fun entry hmem => ?_, fun path hmem => ?_,
    hunstaged⟩
  · obtain ⟨⟨record, hrecord⟩, hpath⟩ := parseBounded_ok htracked entry (mem_sortBy.mp hmem)
    obtain ⟨hmode, hoid⟩ := parseIndexRecord_ok hrecord
    unfold maxPathBytes at hpath
    omega
  · obtain ⟨-, hpath⟩ := parseBounded_ok huntracked path (mem_sortBy.mp hmem)
    rw [id_eq] at hpath
    unfold maxPathBytes at hpath
    omega

/-! ## What is seen in the worktree -/

/-- What is hashed of a node of the worktree. -/
inductive Seen where
  | missing
  | symlink (target : Digest)
  | regular (mode : Nat) (content : Digest)
  | submodule (head : Bytes)

def Node.seen (sha : Bytes → Digest) : Node → Option Seen
  | .missing => some .missing
  | .symlink target => some (.symlink (sha target))
  | .regular _ mode content => some (.regular (mode % 0o10000) (sha content))
  | .directory submodule => (stripGitLine submodule.head.stdout).toOption.map .submodule
  | .special => none

def Seen.fields : Seen → List Field
  | .missing => [⟨ascii "worktree_kind", ascii "missing"⟩]
  | .symlink target => [⟨ascii "worktree_kind", ascii "symlink"⟩, ⟨ascii "worktree_digest", target.val⟩]
  | .regular mode content =>
    [⟨ascii "worktree_kind", ascii "regular"⟩, ⟨ascii "worktree_mode", bigEndian 4 mode⟩,
      ⟨ascii "worktree_digest", content.val⟩]
  | .submodule head => [⟨ascii "worktree_kind", ascii "submodule"⟩, ⟨ascii "worktree_digest", head⟩]

def Seen.Fits : Seen → Prop
  | .regular mode _ => mode < 0o10000
  | .submodule head => head.length < 2 ^ 64
  | _ => True

theorem kinds_ne : [ascii "missing", ascii "symlink", ascii "regular", ascii "submodule"].Nodup := by
  decide

theorem Seen.fields_inj {a b : Seen} (ha : a.Fits) (hb : b.Fits) (h : a.fields = b.fields) :
    a = b := by
  have hkinds := kinds_ne
  cases a with
  | missing =>
    cases b with
    | missing => rfl
    | _ => simp [fields] at h
  | symlink target =>
    cases b with
    | symlink target' =>
      simp only [fields, List.cons.injEq, Field.mk.injEq, true_and, and_true] at h
      rw [Subtype.ext h]
    | submodule head =>
      simp only [fields, List.cons.injEq, Field.mk.injEq, true_and, and_true] at h
      simp [h.1] at hkinds
    | _ => simp [fields] at h
  | regular mode content =>
    cases b with
    | regular mode' content' =>
      simp only [fields, List.cons.injEq, Field.mk.injEq, true_and, and_true] at h
      have hmode : mode = mode' := bigEndian_inj (Nat.lt_trans ha (by decide))
        (Nat.lt_trans hb (by decide)) h.1
      rw [hmode, Subtype.ext h.2]
    | _ => simp [fields] at h
  | submodule head =>
    cases b with
    | submodule head' =>
      simp only [fields, List.cons.injEq, Field.mk.injEq, true_and, and_true] at h
      rw [h]
    | symlink target =>
      simp only [fields, List.cons.injEq, Field.mk.injEq, true_and, and_true] at h
      simp [h.1] at hkinds
    | _ => simp [fields] at h

def Node.CleanAt (oid : Bytes) : Node → Prop
  | .directory submodule => stripGitLine submodule.head.stdout = .ok oid ∧
      submodule.status.code = 0 ∧ submodule.status.stdout = []
  | _ => False

theorem hashSubmodule_ok (sha : Bytes → Digest) {oid : Bytes} {fields : List Field}
    (h : hashSubmodule oid node = .ok fields) :
    node.CleanAt oid ∧ node.seen sha = some (.submodule oid) ∧ fields = (Seen.submodule oid).fields := by
  cases node with
  | directory submodule =>
    rw [hashSubmodule, bind_eq_ok] at h
    obtain ⟨_, -, h⟩ := h
    rw [bind_eq_ok] at h
    obtain ⟨head, hhead, h⟩ := h
    obtain ⟨rfl, -⟩ := snapshotGitOutput_ok hhead
    rw [ensure_bind_ok, bind_eq_ok] at h
    obtain ⟨-, submoduleHead, hline, h⟩ := h
    rw [ensure_bind_ok, bind_eq_ok] at h
    obtain ⟨rfl, status, hstatus, h⟩ := h
    obtain ⟨rfl, -⟩ := snapshotGitOutput_ok hstatus
    rw [ensure_bind_ok] at h
    obtain ⟨hclean, h⟩ := h
    cases h
    refine ⟨⟨hline, hclean⟩, ?_, rfl⟩
    rw [Node.seen, hline]
    rfl
  | _ => cases h

theorem hashFile_ok {checkout : Checkout} {path : Bytes} {budget budget' : SnapshotBudget}
    {fields : List Field} (h : hashFile sha checkout path budget node = .ok (fields, budget')) :
    ∃ seen, node.seen sha = some seen ∧ seen.Fits ∧ fields = seen.fields := by
  cases node with
  | missing =>
    cases h
    exact ⟨.missing, rfl, trivial, rfl⟩
  | symlink target =>
    rw [hashFile, bind_eq_ok] at h
    obtain ⟨_, -, h⟩ := h
    rw [ensure_bind_ok] at h
    obtain ⟨-, h⟩ := h
    cases h
    exact ⟨.symlink (sha target), rfl, trivial, rfl⟩
  | regular nlink mode content =>
    rw [hashFile, ensure_bind_ok, ensure_bind_ok, ensure_bind_ok, ensure_bind_ok,
      ensure_bind_ok] at h
    obtain ⟨-, -, -, -, -, h⟩ := h
    cases h
    exact ⟨.regular (mode % 0o10000) (sha content), rfl, Nat.mod_lt _ (by decide), rfl⟩
  | directory submodule => cases h
  | special => cases h

/-! ## Blocks -/

/-- The tags that open a block. -/
def openTags : List Bytes :=
  [ascii "schema", ascii "index_mode", ascii "untracked_path", ascii "tracked_count"]

/-- The other tags. -/
def bodyTags : List Bytes :=
  [ascii "repository_key", ascii "checkout_key", ascii "checkout_instance", ascii "head_oid",
    ascii "branch_ref", ascii "index_oid", ascii "index_path", ascii "unstaged_path",
    ascii "worktree_kind", ascii "worktree_mode", ascii "worktree_digest", ascii "unstaged_count",
    ascii "untracked_count", ascii "hashed_bytes"]

def opens (field : Field) : Bool := openTags.contains field.tag

theorem tags_fit : ∀ tag ∈ openTags ++ bodyTags, tag.length < 2 ^ 32 := by decide +kernel

theorem bodyTags_not_open : ∀ tag ∈ bodyTags, tag ∉ openTags := by decide

structure SnapshotBlock (tag : Bytes) (block : List Field) : Prop where
  head : ∃ value rest, block = ⟨tag, value⟩ :: rest ∧ ∀ field ∈ rest, field.tag ∈ bodyTags
  fits : ∀ field ∈ block, field.value.length < 2 ^ 64

namespace SnapshotBlock

variable {tag : Bytes} {block : List Field}

theorem isBlock (h : SnapshotBlock tag block) (htag : tag ∈ openTags) : IsBlock opens block := by
  obtain ⟨value, rest, rfl, hrest⟩ := h.head
  exact isBlock_cons (List.contains_iff_mem.mpr htag) fun field hmem =>
    Bool.eq_false_iff.mpr fun hopens =>
      bodyTags_not_open _ (hrest field hmem) (List.contains_iff_mem.mp hopens)

theorem fieldsFit (h : SnapshotBlock tag block) (htag : tag ∈ openTags) :
    ∀ field ∈ block, field.Fits := by
  intro field hmem
  refine ⟨tags_fit _ ?_, h.fits field hmem⟩
  obtain ⟨value, rest, rfl, hrest⟩ := h.head
  rcases List.mem_cons.mp hmem with rfl | hmem
  · exact mem_append_left _ htag
  · exact mem_append_right _ (hrest field hmem)

theorem opener (h : SnapshotBlock tag block) : block.head?.map (·.tag) = some tag := by
  obtain ⟨value, rest, rfl, -⟩ := h.head
  rfl

end SnapshotBlock

theorem Seen.fields_block {seen : Seen} (h : seen.Fits) :
    ∀ field ∈ seen.fields, field.tag ∈ bodyTags ∧ field.value.length < 2 ^ 64 := by
  have hkinds : ∀ kind ∈ [ascii "missing", ascii "symlink", ascii "regular", ascii "submodule"],
      kind.length < 2 ^ 64 := by decide +kernel
  have hdigest : ∀ digest : Digest, digest.val.length < 2 ^ 64 := fun digest => by
    rw [digest.2]
    decide
  have hkind : ascii "worktree_kind" ∈ bodyTags := by simp [bodyTags]
  have hmode : ascii "worktree_mode" ∈ bodyTags := by simp [bodyTags]
  have hvalue : ascii "worktree_digest" ∈ bodyTags := by simp [bodyTags]
  cases seen with
  | missing => exact List.forall_mem_singleton.mpr ⟨hkind, hkinds (ascii "missing") (by simp)⟩
  | symlink target =>
    exact List.forall_mem_cons.mpr ⟨⟨hkind, hkinds (ascii "symlink") (by simp)⟩,
      List.forall_mem_singleton.mpr ⟨hvalue, hdigest target⟩⟩
  | regular mode content =>
    have hwidth : (bigEndian 4 mode).length < 2 ^ 64 := by
      rw [length_bigEndian]
      decide
    exact List.forall_mem_cons.mpr ⟨⟨hkind, hkinds (ascii "regular") (by simp)⟩,
      List.forall_mem_cons.mpr ⟨⟨hmode, hwidth⟩,
        List.forall_mem_singleton.mpr ⟨hvalue, hdigest content⟩⟩⟩
  | submodule head =>
    exact List.forall_mem_cons.mpr ⟨⟨hkind, hkinds (ascii "submodule") (by simp)⟩,
      List.forall_mem_singleton.mpr ⟨hvalue, h⟩⟩

/-! ## One block for each path -/

def indexFields (entry : IndexEntry) : List Field :=
  [⟨ascii "index_mode", entry.mode⟩, ⟨ascii "index_oid", entry.oid⟩,
    ⟨ascii "index_path", entry.path⟩]

theorem indexFields_append_inj {entry entry' : IndexEntry} {rest rest' : List Field}
    (h : indexFields entry ++ rest = indexFields entry' ++ rest') : entry = entry' ∧ rest = rest' := by
  simp only [indexFields, cons_append, nil_append, List.cons.injEq, Field.mk.injEq,
    true_and] at h
  obtain ⟨hmode, hoid, hpath, hrest⟩ := h
  cases entry
  cases entry'
  cases hmode
  cases hoid
  cases hpath
  exact ⟨rfl, hrest⟩

/-- What is hashed of an index entry. -/
inductive EntryBlock (sha : Bytes → Digest) (checkout : Checkout) (unstaged : List Bytes)
    (entry : IndexEntry) : List Field → Prop
  | submodule (hmode : entry.mode = gitlink)
      (hclean : (checkout.node entry.path).CleanAt entry.oid)
      (hseen : (checkout.node entry.path).seen sha = some (.submodule entry.oid)) :
      EntryBlock sha checkout unstaged entry
        (indexFields entry ++ (Seen.submodule entry.oid).fields)
  | unstaged (hmode : entry.mode ≠ gitlink) (hmem : entry.path ∈ unstaged) (seen : Seen)
      (hseen : (checkout.node entry.path).seen sha = some seen) (hfits : seen.Fits) :
      EntryBlock sha checkout unstaged entry
        (indexFields entry ++ ⟨ascii "unstaged_path", entry.path⟩ :: seen.fields)
  | unchanged (hmode : entry.mode ≠ gitlink) (hmem : entry.path ∉ unstaged) :
      EntryBlock sha checkout unstaged entry (indexFields entry)

/-- What is hashed of an untracked path. -/
inductive UntrackedBlock (sha : Bytes → Digest) (checkout : Checkout) (path : Bytes) :
    List Field → Prop
  | mk (seen : Seen) (hseen : (checkout.node path).seen sha = some seen) (hfits : seen.Fits) :
      UntrackedBlock sha checkout path (⟨ascii "untracked_path", path⟩ :: seen.fields)

section
variable {checkout checkout' : Checkout} {unstaged unstaged' : List Bytes}
  {entry entry' : IndexEntry} {path path' : Bytes} {block : List Field}
  {budget budget' : SnapshotBudget}

theorem hashEntry_ok (h : hashEntry sha checkout unstaged entry budget = .ok (block, budget')) :
    EntryBlock sha checkout unstaged entry block := by
  unfold hashEntry at h
  dsimp only at h
  split at h
  next hmode =>
    rw [hashWorktreeObject, bind_eq_ok] at h
    obtain ⟨⟨object, after⟩, hobject, h⟩ := h
    rw [ensure_bind_ok, bind_eq_ok] at hobject
    obtain ⟨-, fields, hfields, hobject⟩ := hobject
    obtain ⟨hclean, hseen, rfl⟩ := hashSubmodule_ok sha hfields
    cases hobject
    cases h
    exact .submodule hmode hclean hseen
  next hmode =>
    split at h
    next hmem =>
      rw [hashWorktreeObject, bind_eq_ok] at h
      obtain ⟨⟨object, after⟩, hobject, h⟩ := h
      rw [ensure_bind_ok] at hobject
      obtain ⟨seen, hseen, hfits, rfl⟩ := hashFile_ok hobject.2
      cases h
      exact .unstaged hmode hmem seen hseen hfits
    next hmem =>
      cases h
      exact .unchanged hmode hmem

theorem hashUntracked_ok (h : hashUntracked sha checkout path budget = .ok (block, budget')) :
    UntrackedBlock sha checkout path block := by
  rw [hashUntracked, hashWorktreeObject, bind_eq_ok] at h
  obtain ⟨⟨object, after⟩, hobject, h⟩ := h
  rw [ensure_bind_ok] at hobject
  obtain ⟨seen, hseen, hfits, rfl⟩ := hashFile_ok hobject.2
  cases h
  exact .mk seen hseen hfits

theorem EntryBlock.snapshotBlock (h : EntryBlock sha checkout unstaged entry block)
    (hfits : entry.mode.length < 2 ^ 64 ∧ entry.oid.length < 2 ^ 64 ∧ entry.path.length < 2 ^ 64) :
    SnapshotBlock (ascii "index_mode") block := by
  obtain ⟨hmode, hoid, hpath⟩ := hfits
  have hoidTag : ascii "index_oid" ∈ bodyTags := by simp [bodyTags]
  have hpathTag : ascii "index_path" ∈ bodyTags := by simp [bodyTags]
  have hunstagedTag : ascii "unstaged_path" ∈ bodyTags := by simp [bodyTags]
  have hindex : ∀ rest : List Field,
      (∀ field ∈ rest, field.tag ∈ bodyTags ∧ field.value.length < 2 ^ 64) →
      SnapshotBlock (ascii "index_mode") (indexFields entry ++ rest) := fun rest hrest =>
    { head := ⟨entry.mode, _, rfl, by
        simpa [hoidTag, hpathTag] using fun field hmem => (hrest field hmem).1⟩
      fits := List.forall_mem_cons.mpr ⟨hmode, List.forall_mem_cons.mpr ⟨hoid,
        List.forall_mem_cons.mpr ⟨hpath, fun field hmem => (hrest field hmem).2⟩⟩⟩ }
  cases h with
  | submodule _ _ _ => exact hindex _ (Seen.fields_block (show Seen.Fits (.submodule _) from hoid))
  | unstaged _ _ seen _ hseen =>
    refine hindex _ (List.forall_mem_cons.mpr ⟨⟨hunstagedTag, hpath⟩, Seen.fields_block hseen⟩)
  | unchanged _ _ =>
    have hblock := hindex [] (fun field hmem => by cases hmem)
    rwa [append_nil] at hblock

theorem UntrackedBlock.snapshotBlock (h : UntrackedBlock sha checkout path block)
    (hpath : path.length < 2 ^ 64) : SnapshotBlock (ascii "untracked_path") block := by
  obtain ⟨seen, -, hseen⟩ := h
  have hfields := Seen.fields_block hseen
  exact ⟨⟨path, _, rfl, fun field hmem => (hfields field hmem).1⟩,
    List.forall_mem_cons.mpr ⟨hpath, fun field hmem => (hfields field hmem).2⟩⟩

/-- One entry of two checkouts with one block. -/
structure SameEntry (sha : Bytes → Digest) (checkout checkout' : Checkout)
    (unstaged unstaged' : List Bytes) (entry : IndexEntry) : Prop where
  submodule : entry.mode = gitlink →
    (checkout.node entry.path).CleanAt entry.oid ∧ (checkout'.node entry.path).CleanAt entry.oid ∧
      (checkout.node entry.path).seen sha = (checkout'.node entry.path).seen sha
  file : entry.mode ≠ gitlink → (entry.path ∈ unstaged ↔ entry.path ∈ unstaged') ∧
    (entry.path ∈ unstaged →
      (checkout.node entry.path).seen sha = (checkout'.node entry.path).seen sha)

theorem EntryBlock.inj (h : EntryBlock sha checkout unstaged entry block)
    (h' : EntryBlock sha checkout' unstaged' entry' block) :
    entry = entry' ∧ SameEntry sha checkout checkout' unstaged unstaged' entry := by
  generalize hblock : block = other at h'
  cases h with
  | submodule hmode hclean hseen =>
    cases h' with
    | submodule hmode' hclean' hseen' =>
      obtain ⟨rfl, -⟩ := indexFields_append_inj hblock
      exact ⟨rfl, fun _ => ⟨hclean, hclean', hseen.trans hseen'.symm⟩, fun hne => absurd hmode hne⟩
    | unstaged hmode' =>
      obtain ⟨rfl, -⟩ := indexFields_append_inj hblock
      exact absurd hmode hmode'
    | unchanged hmode' =>
      obtain ⟨rfl, -⟩ := indexFields_append_inj (hblock.trans (append_nil _).symm)
      exact absurd hmode hmode'
  | unstaged hmode hmem seen hseen hfits =>
    cases h' with
    | submodule hmode' =>
      obtain ⟨rfl, -⟩ := indexFields_append_inj hblock
      exact absurd hmode' hmode
    | unstaged hmode' hmem' seen' hseen' hfits' =>
      obtain ⟨rfl, hrest⟩ := indexFields_append_inj hblock
      obtain rfl := Seen.fields_inj hfits hfits' (List.cons.inj hrest).2
      exact ⟨rfl, fun heq => absurd heq hmode,
        fun _ => ⟨iff_of_true hmem hmem', fun _ => hseen.trans hseen'.symm⟩⟩
    | unchanged hmode' hmem' =>
      obtain ⟨-, hrest⟩ := indexFields_append_inj (hblock.trans (append_nil _).symm)
      cases hrest
  | unchanged hmode hmem =>
    have hblock := (append_nil (indexFields entry)).trans hblock
    cases h' with
    | submodule hmode' =>
      obtain ⟨rfl, -⟩ := indexFields_append_inj hblock
      exact absurd hmode' hmode
    | unstaged hmode' hmem' seen' =>
      obtain ⟨-, hrest⟩ := indexFields_append_inj hblock
      cases hrest
    | unchanged hmode' hmem' =>
      obtain ⟨rfl, -⟩ := indexFields_append_inj (hblock.trans (append_nil _).symm)
      exact ⟨rfl, fun heq => absurd heq hmode,
        fun _ => ⟨iff_of_false hmem hmem', fun hin => absurd hin hmem⟩⟩

theorem UntrackedBlock.inj (h : UntrackedBlock sha checkout path block)
    (h' : UntrackedBlock sha checkout' path' block) :
    path = path' ∧ (checkout.node path).seen sha = (checkout'.node path).seen sha := by
  generalize hblock : block = other at h'
  obtain ⟨seen, hseen, hfits⟩ := h
  obtain ⟨seen', hseen', hfits'⟩ := h'
  obtain ⟨hhead, hrest⟩ := List.cons.inj hblock
  obtain rfl : path = path' := congrArg Field.value hhead
  obtain rfl := Seen.fields_inj hfits hfits' hrest
  exact ⟨rfl, hseen.trans hseen'.symm⟩

end

theorem hashEach_ok {α : Type}
    {hash : α → SnapshotBudget → Except String (List Field × SnapshotBudget)} {as : List α}
    {budget budget' : SnapshotBudget} {blocks : List (List Field)}
    (h : hashEach hash as budget = .ok (blocks, budget')) :
    Forall₂ (fun a block => ∃ before after, hash a before = .ok (block, after)) as blocks := by
  induction as generalizing budget blocks with
  | nil =>
    cases h
    exact .nil
  | cons a as ih =>
    rw [hashEach, bind_eq_ok] at h
    obtain ⟨⟨block, after⟩, hblock, h⟩ := h
    rw [bind_eq_ok] at h
    obtain ⟨⟨rest, last⟩, hrest, h⟩ := h
    cases h
    exact .cons ⟨budget, after, hblock⟩ (ih hrest)

/-! ## The whole snapshot -/

/-- The fields of a snapshot, cut into its blocks. -/
structure Hashed (sha : Bytes → Digest) (checkout : Checkout) (listing : Listing)
    (tracked untracked : List (List Field)) (budget : SnapshotBudget) (fields : List Field) :
    Prop where
  fits : listing.Fits
  entries : List.Forall₂ (EntryBlock sha checkout listing.unstaged) listing.tracked tracked
  paths : List.Forall₂ (UntrackedBlock sha checkout) listing.untracked untracked
  cut : fields = (identityFields checkout.identity listing ::
    (tracked ++ (untracked ++ [countFields listing budget]))).flatten

theorem hashCheckout_ok {checkout : Checkout} {listing : Listing} {fields : List Field}
    {budget : SnapshotBudget} (h : hashCheckout sha checkout = .ok (listing, fields, budget)) :
    (∃ read, readListing sha checkout = .ok (listing, read)) ∧
      ∃ tracked untracked, Hashed sha checkout listing tracked untracked budget fields := by
  rw [hashCheckout, bind_eq_ok] at h
  obtain ⟨⟨listing', read⟩, hlisting, h⟩ := h
  rw [bind_eq_ok] at h
  obtain ⟨⟨tracked, after⟩, htracked, h⟩ := h
  rw [bind_eq_ok] at h
  obtain ⟨⟨untracked, last⟩, huntracked, h⟩ := h
  cases h
  refine ⟨⟨read, hlisting⟩, tracked, untracked, readListing_ok hlisting,
    (hashEach_ok htracked).imp fun _ _ ⟨_, _, h⟩ => hashEntry_ok h,
    (hashEach_ok huntracked).imp fun _ _ ⟨_, _, h⟩ => hashUntracked_ok h, ?_⟩
  simp

theorem identityFields_block {identity : CheckoutIdentity} {listing : Listing} (h : listing.Fits) :
    SnapshotBlock (ascii "schema") (identityFields identity listing) := by
  have hschema : snapshotSchema.length < 2 ^ 64 := by decide +kernel
  have hshort : ∀ n ≤ 64, n < 2 ^ 64 := fun n hn => lt_of_le_of_lt hn (by decide)
  have hrepository := hshort _ identity.repositoryKey_length.le
  have hcheckout := hshort _ identity.checkoutKey_length.le
  have hinstance := hshort _ (identity.checkoutInstance_length.le.trans (by decide))
  exact ⟨⟨snapshotSchema, _, rfl, by simp [bodyTags]⟩,
    List.forall_mem_cons.mpr ⟨hschema, List.forall_mem_cons.mpr ⟨hrepository,
      List.forall_mem_cons.mpr ⟨hcheckout, List.forall_mem_cons.mpr ⟨hinstance,
        List.forall_mem_cons.mpr ⟨h.headOid, List.forall_mem_singleton.mpr h.branchRaw⟩⟩⟩⟩⟩⟩

theorem countFields_block {listing : Listing} {budget : SnapshotBudget} :
    SnapshotBlock (ascii "tracked_count") (countFields listing budget) :=
  ⟨⟨_, _, rfl, by simp [bodyTags]⟩, by simp [countFields]⟩

section
variable {checkout : Checkout} {listing : Listing} {tracked untracked : List (List Field)}
  {budget : SnapshotBudget} {fields : List Field}

section

variable (h : Hashed sha checkout listing tracked untracked budget fields)

include h

theorem Hashed.trackedBlocks :
    ∀ block ∈ tracked, SnapshotBlock (ascii "index_mode") block := by
  intro block hmem
  obtain ⟨entry, hentry, hblock⟩ := exists_of_forall₂ h.entries hmem
  exact hblock.snapshotBlock (h.fits.tracked entry hentry)

theorem Hashed.untrackedBlocks :
    ∀ block ∈ untracked, SnapshotBlock (ascii "untracked_path") block := by
  intro block hmem
  obtain ⟨path, hpath, hblock⟩ := exists_of_forall₂ h.paths hmem
  exact hblock.snapshotBlock (h.fits.untracked path hpath)

theorem Hashed.blocks :
    ∀ block ∈ identityFields checkout.identity listing ::
        (tracked ++ (untracked ++ [countFields listing budget])),
      ∃ tag ∈ openTags, SnapshotBlock tag block := by
  intro block hmem
  rw [mem_cons, mem_append, mem_append, mem_singleton] at hmem
  rcases hmem with rfl | hmem | hmem | rfl
  · exact ⟨_, by simp [openTags], identityFields_block h.fits⟩
  · exact ⟨_, by simp [openTags], h.trackedBlocks block hmem⟩
  · exact ⟨_, by simp [openTags], h.untrackedBlocks block hmem⟩
  · exact ⟨_, by simp [openTags], countFields_block⟩

theorem Hashed.fieldsFit :
    ∀ field ∈ fields, field.Fits := by
  intro field hmem
  rw [h.cut, mem_flatten] at hmem
  obtain ⟨block, hblock, hmem⟩ := hmem
  obtain ⟨tag, htag, hsnapshot⟩ := h.blocks block hblock
  exact hsnapshot.fieldsFit htag field hmem

theorem Hashed.isBlocks :
    ∀ block ∈ identityFields checkout.identity listing ::
        (tracked ++ (untracked ++ [countFields listing budget])), IsBlock opens block := by
  intro block hmem
  obtain ⟨tag, htag, hsnapshot⟩ := h.blocks block hmem
  exact hsnapshot.isBlock htag

end

end

/-- The blocks that a tag opens. -/
def openedBy (tag : Bytes) (blocks : List (List Field)) : List (List Field) :=
  blocks.filter fun block => block.head?.map (·.tag) = some tag

theorem openedBy_self {tag : Bytes} {blocks : List (List Field)}
    (h : ∀ block ∈ blocks, SnapshotBlock tag block) : openedBy tag blocks = blocks :=
  List.filter_eq_self.mpr fun block hmem => decide_eq_true (h block hmem).opener

theorem openedBy_other {tag other : Bytes} {blocks : List (List Field)} (hne : other ≠ tag)
    (h : ∀ block ∈ blocks, SnapshotBlock other block) : openedBy tag blocks = [] := by
  refine List.filter_eq_nil_iff.mpr fun block hmem hopened => hne ?_
  have := (h block hmem).opener.symm.trans (of_decide_eq_true hopened)
  exact Option.some.inj this

theorem openedBy_append (tag : Bytes) (blocks blocks' : List (List Field)) :
    openedBy tag (blocks ++ blocks') = openedBy tag blocks ++ openedBy tag blocks' :=
  filter_append ..

theorem openTags_nodup : openTags.Nodup := by decide

structure SameState (sha : Bytes → Digest) (checkout checkout' : Checkout)
    (listing listing' : Listing) : Prop where
  repositoryKey : checkout.identity.repositoryKey = checkout'.identity.repositoryKey
  checkoutKey : checkout.identity.checkoutKey = checkout'.identity.checkoutKey
  checkoutInstance : checkout.identity.checkoutInstance = checkout'.identity.checkoutInstance
  headOid : listing.headOid = listing'.headOid
  branchRaw : listing.branchRaw = listing'.branchRaw
  tracked : listing.tracked = listing'.tracked
  unstaged : ∀ path, path ∈ listing.unstaged ↔ path ∈ listing'.unstaged
  unstagedSeen : ∀ path ∈ listing.unstaged,
    (checkout.node path).seen sha = (checkout'.node path).seen sha
  submodules : ∀ entry ∈ listing.tracked, entry.mode = gitlink →
    (checkout.node entry.path).seen sha = (checkout'.node entry.path).seen sha
  untracked : listing.untracked = listing'.untracked
  untrackedSeen : ∀ path ∈ listing.untracked,
    (checkout.node path).seen sha = (checkout'.node path).seen sha

def Checkout.DiffLists (sha : Bytes → Digest) (checkout : Checkout) : Prop :=
  ∀ listing budget, readListing sha checkout = .ok (listing, budget) →
    ∀ entry ∈ listing.tracked, entry.mode = gitlink → entry.path ∈ listing.unstaged →
      ¬ (checkout.node entry.path).CleanAt entry.oid

def NoCollision (sha : Bytes → Digest) (checkout checkout' : Checkout) : Prop :=
  ∀ listing fields budget listing' fields' budget',
    hashCheckout sha checkout = .ok (listing, fields, budget) →
    hashCheckout sha checkout' = .ok (listing', fields', budget') →
    sha (framed fields) = sha (framed fields') → framed fields = framed fields'

section
variable {checkout checkout' : Checkout} {listing listing' : Listing}
  {tracked untracked tracked' untracked' : List (List Field)} {budget budget' : SnapshotBudget}
  {fields fields' : List Field}

theorem Hashed.blocks_eq (h : Hashed sha checkout listing tracked untracked budget fields)
    (h' : Hashed sha checkout' listing' tracked' untracked' budget' fields)  :
    identityFields checkout.identity listing = identityFields checkout'.identity listing' ∧
      tracked = tracked' ∧ untracked = untracked' := by
  have hblocks := flatten_inj h.isBlocks h'.isBlocks (h.cut.symm.trans h'.cut)
  obtain ⟨hidentity, hrest⟩ := List.cons.inj hblocks
  have hnodup := openTags_nodup
  simp only [openTags, nodup_cons, mem_cons, not_mem_nil, or_false, not_or] at hnodup
  obtain ⟨-, ⟨hindexPath, hindexCount⟩, huntrackedCount, -⟩ := hnodup
  have hcount : ∀ {listing : Listing} {budget : SnapshotBudget},
      ∀ block ∈ [countFields listing budget], SnapshotBlock (ascii "tracked_count") block := by
    intro listing budget block hmem
    rw [List.mem_singleton.mp hmem]
    exact countFields_block
  refine ⟨hidentity, ?_, ?_⟩
  · have htracked := congrArg (openedBy (ascii "index_mode")) hrest
    rwa [openedBy_append, openedBy_append, openedBy_append, openedBy_append,
      openedBy_self h.trackedBlocks, openedBy_self h'.trackedBlocks,
      openedBy_other (Ne.symm hindexPath) h.untrackedBlocks,
      openedBy_other (Ne.symm hindexPath) h'.untrackedBlocks,
      openedBy_other (Ne.symm hindexCount) hcount, openedBy_other (Ne.symm hindexCount) hcount,
      append_nil, append_nil, append_nil] at htracked
  · have huntracked := congrArg (openedBy (ascii "untracked_path")) hrest
    rwa [openedBy_append, openedBy_append, openedBy_append, openedBy_append,
      openedBy_other hindexPath h.trackedBlocks, openedBy_other hindexPath h'.trackedBlocks,
      openedBy_self h.untrackedBlocks, openedBy_self h'.untrackedBlocks,
      openedBy_other (Ne.symm huntrackedCount) hcount,
      openedBy_other (Ne.symm huntrackedCount) hcount, nil_append, nil_append,
      append_nil, append_nil] at huntracked

theorem Hashed.unstaged_file (hgit : checkout.DiffLists sha)
    (hlisting : ∃ read, readListing sha checkout = .ok (listing, read))
    (h : Hashed sha checkout listing tracked untracked budget fields)
    (hclean : ∀ entry ∈ listing.tracked, entry.mode = gitlink →
      (checkout.node entry.path).CleanAt entry.oid) {path : Bytes} (hpath : path ∈ listing.unstaged) :
    ∃ entry ∈ listing.tracked, entry.mode ≠ gitlink ∧ entry.path = path := by
  obtain ⟨entry, hentry, rfl⟩ := List.mem_map.mp (h.fits.unstaged path hpath)
  obtain ⟨read, hread⟩ := hlisting
  refine ⟨entry, hentry, fun hmode => ?_, rfl⟩
  exact hgit listing read hread entry hentry hmode hpath (hclean entry hentry hmode)

theorem Hashed.sameState (hgit : checkout.DiffLists sha) (hgit' : checkout'.DiffLists sha)
    (hlisting : ∃ read, readListing sha checkout = .ok (listing, read))
    (hlisting' : ∃ read, readListing sha checkout' = .ok (listing', read))
    (h : Hashed sha checkout listing tracked untracked budget fields)
    (h' : Hashed sha checkout' listing' tracked' untracked' budget' fields) :
    SameState sha checkout checkout' listing listing' := by
  obtain ⟨hidentity, rfl, rfl⟩ := h.blocks_eq h'
  obtain ⟨htracked, hentries⟩ :=
    forall₂_same (P := SameEntry sha checkout checkout' listing.unstaged listing'.unstaged)
      (fun _ _ _ hblock hblock' => hblock.inj hblock') h.entries h'.entries
  obtain ⟨huntracked, hpaths⟩ :=
    forall₂_same (fun _ _ _ hblock hblock' => hblock.inj hblock') h.paths h'.paths
  simp only [identityFields, List.cons.injEq, Field.mk.injEq, true_and, and_true] at hidentity
  obtain ⟨hrepository, hcheckout, hinstance, hhead, hbranch⟩ := hidentity
  have hfile : ∀ path ∈ listing.unstaged,
      ∃ entry ∈ listing.tracked, entry.mode ≠ gitlink ∧ entry.path = path := fun path hpath =>
    h.unstaged_file hgit hlisting (fun entry hentry hmode => ((hentries entry hentry).submodule hmode).1)
      hpath
  have hfile' : ∀ path ∈ listing'.unstaged,
      ∃ entry ∈ listing.tracked, entry.mode ≠ gitlink ∧ entry.path = path := by
    intro path hpath
    rw [htracked] at hentries ⊢
    exact h'.unstaged_file hgit' hlisting'
      (fun entry hentry hmode => ((hentries entry hentry).submodule hmode).2.1) hpath
  exact {
    repositoryKey := hrepository
    checkoutKey := hcheckout
    checkoutInstance := hinstance
    headOid := hhead
    branchRaw := hbranch
    tracked := htracked
    unstaged := fun path => by
      constructor
      · intro hpath
        obtain ⟨entry, hentry, hmode, rfl⟩ := hfile path hpath
        exact ((hentries entry hentry).file hmode).1.mp hpath
      · intro hpath
        obtain ⟨entry, hentry, hmode, rfl⟩ := hfile' path hpath
        exact ((hentries entry hentry).file hmode).1.mpr hpath
    unstagedSeen := fun path hpath => by
      obtain ⟨entry, hentry, hmode, rfl⟩ := hfile path hpath
      exact ((hentries entry hentry).file hmode).2 hpath
    submodules := fun entry hentry hmode => ((hentries entry hentry).submodule hmode).2.2
    untracked := huntracked
    untrackedSeen := hpaths }

end

/-- Two accepted checkouts with one snapshot identity are in the same state. -/
theorem snapshot_id_injective (sha : Bytes → Digest) (checkout checkout' : Checkout)
    (hgit : checkout.DiffLists sha) (hgit' : checkout'.DiffLists sha)
    (hsha : NoCollision sha checkout checkout') {snapshot snapshot' : DirtySnapshot}
    (h : snapshotOnce sha checkout = .ok snapshot)
    (h' : snapshotOnce sha checkout' = .ok snapshot')
    (hid : snapshot.snapshotId = snapshot'.snapshotId) :
    ∃ listing budget listing' budget', readListing sha checkout = .ok (listing, budget) ∧
      readListing sha checkout' = .ok (listing', budget') ∧
      SameState sha checkout checkout' listing listing' := by
  rw [snapshotOnce, bind_eq_ok] at h h'
  obtain ⟨⟨listing, fields, budget⟩, hfields, h⟩ := h
  obtain ⟨⟨listing', fields', budget'⟩, hfields', h'⟩ := h'
  cases h
  cases h'
  obtain ⟨⟨read, hread⟩, tracked, untracked, hhashed⟩ := hashCheckout_ok hfields
  obtain ⟨⟨read', hread'⟩, tracked', untracked', hhashed'⟩ := hashCheckout_ok hfields'
  have hdigest : sha (framed fields) = sha (framed fields') := Subtype.ext (hexBytes_inj hid)
  have htext := hsha _ _ _ _ _ _ hfields hfields' hdigest
  obtain rfl : fields = fields' := framed_inj hhashed.fieldsFit hhashed'.fieldsFit htext
  exact ⟨listing, read, listing', read', hread, hread',
    hhashed.sameState hgit hgit' ⟨read, hread⟩ ⟨read', hread'⟩ hhashed'⟩

/-! ## Two checkouts -/

def sampleSha (text : Bytes) : Digest :=
  ⟨(text ++ List.replicate 32 0).take 32, by simp⟩

def sampleCheckout : Checkout where
  identity :=
    { repositoryKey := List.replicate 64 97
      checkoutKey := List.replicate 64 98
      checkoutInstance := List.replicate 32 99
      repositoryKey_length := List.length_replicate
      checkoutKey_length := List.length_replicate
      checkoutInstance_length := List.length_replicate }
  accepted := .ok ()
  symbolicRef := ⟨0, ascii "refs/heads/main" ++ [10]⟩
  revParseHead := ⟨0, List.replicate 40 97 ++ [10]⟩
  showRef := ⟨1, []⟩
  lsFilesStage := ⟨0, ascii "100644 " ++ List.replicate 40 98 ++ ascii " 0" ++ [9] ++
    ascii "file" ++ [0]⟩
  lsFilesFlags := ⟨0, ascii "H file" ++ [0]⟩
  submodulesAccepted := .ok ()
  diffCached := ⟨0, []⟩
  diffNames := ⟨0, ascii "file" ++ [0]⟩
  lsFilesOthers := ⟨0, []⟩
  objectsAccepted := .ok ()
  parentWithinRoot _ := true
  symlinkStays _ _ := .ok ()
  node path := if path = ascii "file" then .regular 1 0o100644 [1, 2] else .missing

def sampleStaged : Checkout := { sampleCheckout with diffCached := ⟨1, []⟩ }

theorem diffLists_of_files {checkout : Checkout} (h : (readListing sampleSha checkout).toOption.all
      (fun read => read.1.tracked.all fun entry => entry.mode ≠ gitlink) = true) :
    checkout.DiffLists sampleSha := by
  intro listing budget hread entry hentry hmode
  rw [hread] at h
  exact absurd hmode (of_decide_eq_true (List.all_eq_true.mp h entry hentry))

theorem snapshot_id_injective_sample : ∃ listing budget listing' budget',
    readListing sampleSha sampleCheckout = .ok (listing, budget) ∧
      readListing sampleSha sampleStaged = .ok (listing', budget') ∧
      SameState sampleSha sampleCheckout sampleStaged listing listing' := by
  have hsame : (hashCheckout sampleSha sampleStaged).toOption =
      (hashCheckout sampleSha sampleCheckout).toOption := by decide +kernel
  have hsome : (hashCheckout sampleSha sampleCheckout).toOption.isSome := by decide +kernel
  obtain ⟨hashed, hhashed⟩ := Option.isSome_iff_exists.mp hsome
  have hcheckout := ok_of_toOption hhashed
  have hstaged := ok_of_toOption (hsame.trans hhashed)
  have hsha : NoCollision sampleSha sampleCheckout sampleStaged := by
    intro listing fields budget listing' fields' budget' h h' _
    have hfields := Except.ok.inj (h.symm.trans (hcheckout.trans (hstaged.symm.trans h')))
    cases hfields
    rfl
  refine snapshot_id_injective sampleSha sampleCheckout sampleStaged
    (diffLists_of_files (by decide +kernel)) (diffLists_of_files (by decide +kernel)) hsha
    (by rw [snapshotOnce, hcheckout]; rfl) (by rw [snapshotOnce, hstaged]; rfl) ?_
  rfl

end NilsCli.Worktree
