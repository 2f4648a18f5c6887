import NilsCli.Lib.JsonRead
import NilsCli.Lib.Transition
import NilsCli.Notice.Answers

/-!
# The page index over its runs

A run makes calls, publishes roots and opens the file again at a published root, with any bytes
behind those that were committed.
-/

namespace NilsCli.Notice

open Lib SortedMap List

variable {bytes : List UInt8} {key value : String}

variable {m : SortedMap String String} {index : Index}

/-! ## Pages are read back -/

theorem endsItself_rowJson : EndsItself rowJson := by
  intro row row' r r' h
  simp only [rowJson, jsonArray, commaSeparated, cons_append, append_assoc,
    nil_append, List.cons.injEq, true_and] at h
  obtain ⟨hkey, h⟩ := endsItself_jsonString _ _ _ _ h
  simp only [List.cons.injEq, true_and] at h
  obtain ⟨hvalue, h⟩ := endsItself_jsonString _ _ _ _ h
  exact ⟨Prod.ext hkey hvalue, cons_injective h⟩

theorem endsItself_pageJson : EndsItself Page.json := by
  intro page page' r r' h
  obtain ⟨offset, bytes, sha256⟩ := page
  obtain ⟨offset', bytes', sha256'⟩ := page'
  simp only [Page.json, jsonObject, jsonMember, map_cons, map_nil, commaSeparated,
    cons_append, append_assoc, nil_append, List.cons.injEq, true_and] at h
  replace h := append_cancel_left h
  simp only [List.cons.injEq, true_and] at h
  obtain ⟨hoffset, h⟩ := jsonNat_append_inj (by decide) (by decide) h
  simp only [List.cons.injEq, true_and] at h
  replace h := append_cancel_left h
  simp only [List.cons.injEq, true_and] at h
  obtain ⟨hbytes, h⟩ := jsonNat_append_inj (by decide) (by decide) h
  simp only [List.cons.injEq, true_and] at h
  replace h := append_cancel_left h
  simp only [List.cons.injEq, true_and] at h
  obtain ⟨hhash, h⟩ := endsItself_jsonString _ _ _ _ h
  exact ⟨by rw [hoffset, hbytes, hhash], cons_injective h⟩

theorem endsItself_childJson : EndsItself Child.json := by
  intro child child' r r' h
  obtain ⟨last, page⟩ := child
  obtain ⟨last', page'⟩ := child'
  simp only [Child.json, jsonObject, jsonMember, map_cons, map_nil, commaSeparated,
    cons_append, append_assoc, nil_append, List.cons.injEq, true_and] at h
  replace h := append_cancel_left h
  simp only [List.cons.injEq, true_and] at h
  obtain ⟨hlast, h⟩ := endsItself_jsonString _ _ _ _ h
  simp only [List.cons.injEq, true_and] at h
  replace h := append_cancel_left h
  simp only [List.cons.injEq, true_and] at h
  obtain ⟨hpage, h⟩ := endsItself_pageJson _ _ _ _ h
  exact ⟨by rw [hlast, hpage], cons_injective h⟩

theorem Node.json_injective : Function.Injective Node.json := by
  have hrows := endsItself_list endsItself_rowJson fun row r r' => by
    simp [rowJson, jsonArray]
  have hchildren := endsItself_list endsItself_childJson fun child r r' => by
    simp [Child.json, jsonObject]
  have hmember : ∀ (label : String) {text text' : List Char},
      jsonObject [(label, text)] = jsonObject [(label, text')] → text = text' := by
    intro label text text' h
    simp only [jsonObject, jsonMember, map_cons, map_nil, commaSeparated,
      cons_append, append_assoc, List.cons.injEq, true_and] at h
    replace h := append_cancel_left h
    simp only [List.cons.injEq, true_and] at h
    exact append_cancel_right h
  have hkinds : ∀ {text text' : List Char},
      jsonObject [("Leaf", text)] ≠ jsonObject [("Branch", text')] := by
    intro text text' h
    have hleaf : jsonString "Leaf" = ['\x22', 'L', 'e', 'a', 'f', '\x22'] := by decide
    have hbranch : jsonString "Branch" = ['\x22', 'B', 'r', 'a', 'n', 'c', 'h', '\x22'] := by decide
    simp [jsonObject, jsonMember, commaSeparated, hleaf, hbranch] at h
  intro node node' h
  cases node with
  | leaf rows =>
    cases node' with
    | leaf rows' =>
      have hall := hmember "Leaf" h
      rw [(hrows rows rows' [] [] (by simpa using hall)).1]
    | branch children => exact absurd h hkinds
  | branch children =>
    cases node' with
    | leaf rows => exact absurd h.symm hkinds
    | branch children' =>
      have hall := hmember "Branch" h
      rw [(hchildren children children' [] [] (by simpa using hall)).1]

theorem Node.toVec_injective : Function.Injective Node.toVec :=
  utf8Bytes_injective.comp Node.json_injective

open Classical in
/-- The node that is written as these bytes. -/
noncomputable def readBack (bytes : List UInt8) : Option Node :=
  if h : ∃ node : Node, node.toVec = bytes then some h.choose else none

theorem readBack_toVec (node : Node) : readBack node.toVec = some node := by
  have h : ∃ node' : Node, node'.toVec = node.toVec := ⟨node, rfl⟩
  rw [readBack, dif_pos h]
  exact congrArg some (Node.toVec_injective h.choose_spec)

inductive IndexCall
  | build (entries : SortedMap String String)
  | apply (additions : SortedMap String String) (merge : Merge)

namespace IndexCall

def run (codec : Codec) : IndexCall → Call Unit
  | build entries => Notice.build codec entries
  | apply additions merge => Notice.apply codec additions merge

/-- The call on a plain map. -/
def plain : IndexCall → SortedMap String String → Except PageError (SortedMap String String)
  | build entries, _ => .ok entries
  | apply additions merge, m => upsertAll (merged merge) additions.rows m

def batch : IndexCall → SortedMap String String
  | build entries => entries
  | apply additions _ => additions

end IndexCall

structure Publication where
  root : Option Page
  committed : Nat
  map : Except PageError (SortedMap String String)

structure World where
  index : Index
  map : Except PageError (SortedMap String String)
  published : List Publication

inductive Step (codec : Codec) : World → World → Prop
  /-- A call succeeds. -/
  | done {w : World} {call : IndexCall} (hkeys : PlainRows call.batch.rows)
      (hrun : (call.run codec).result w.index = .ok ()) :
      Step codec w ⟨(call.run codec).after w.index, w.map >>= call.plain, w.published⟩
  /-- A call fails, or stops after any byte that it writes. -/
  | stopped {w : World} {call : IndexCall} {index : Index} (hkeys : PlainRows call.batch.rows)
      (hstop : (call.run codec).Stops w.index index) :
      Step codec w ⟨index, if index.root = w.index.root then w.map else w.map >>= call.plain,
        w.published⟩
  | publish (w : World) :
      Step codec w { w with
        published := ⟨w.index.root, w.index.committed, w.map⟩ :: w.published }
  /-- The file is opened at a published root. -/
  | reopen {w : World} {publication : Publication} {file : List UInt8}
      (hmem : publication ∈ w.published)
      (hfile : w.index.file.take publication.committed <+: file) :
      Step codec w ⟨⟨file, publication.root, publication.committed⟩, publication.map,
        w.published.filter (·.committed ≤ publication.committed)⟩

/-- The runs from an empty file. -/
def pageIndex (codec : Codec) : Lts where
  State := World
  Label := Unit
  init w := w = ⟨.create, .ok .empty, []⟩
  step _ w w' := Step codec w w'

/-- `get` and `all` answer with the map. -/
def Answers (codec : Codec) (index : Index) (m : SortedMap String String) : Prop :=
  (∀ key, index.get codec key = .ok (m.find? key)) ∧ index.all codec = .ok m

/-- The file still holds what was published. -/
def Publication.Standing (codec : Codec) (file : List UInt8) (publication : Publication) : Prop :=
  ∃ bytes m, publication.map = .ok m ∧ bytes <+: file ∧ bytes.length ≤ publication.committed ∧
    Represents codec bytes publication.root m

/-- The index stands for the plain map, and so do the published roots for theirs. -/
structure World.Sound (codec : Codec) (w : World) : Prop where
  current : ∃ bytes m, w.map = .ok m ∧ w.index.Holds bytes ∧
    Represents codec bytes w.index.root m
  published : ∀ publication ∈ w.published, publication.Standing codec w.index.file

section
variable {codec : Codec} {w w' : World}

theorem Publication.Standing.mono {file file' : List UInt8} {publication : Publication}
    (h : publication.Standing codec file) (hmore : file <+: file') :
    publication.Standing codec file' := by
  obtain ⟨bytes, m, hmap, hheld, hcommitted, hroot⟩ := h
  exact ⟨bytes, m, hmap, hheld.trans hmore, hcommitted, hroot⟩

/-- What a call does to an index that stands for a map. -/
theorem IndexCall.run_triple {root : Option Page} {base : List UInt8}
    (call : IndexCall) (hkeys : PlainRows call.batch.rows) (h : Represents codec bytes root m) :
    (call.run codec).Triple (Index.At base root bytes)
      (fun _ index => ∃ m', call.plain m = .ok m' ∧ Reached codec base bytes m' index)
      (fun _ => Index.At base root bytes)
      (fun index => index.At base root bytes ∨
        ∃ m', call.plain m = .ok m' ∧ Reached codec base bytes m' index) := by
  cases call with
  | build entries =>
    exact (build_triple hkeys).weaken (fun _ h => h) (fun _ _ h => ⟨entries, rfl, h⟩)
      (fun _ _ h => h) fun _ h => h.imp_right fun h => ⟨entries, rfl, h⟩
  | apply additions merge => exact apply_triple h hkeys

theorem sound_init : World.Sound codec ⟨.create, .ok .empty, []⟩ where
  current := ⟨[], .empty, rfl, ⟨prefix_refl _, Nat.zero_le _⟩, {
    plain := by simp [PlainRows, SortedMap.empty]
    empty := fun _ => rfl
    grown := fun page hpage => by cases hpage }⟩
  published := by simp

theorem World.Sound.stops (h : w.Sound codec) {call : IndexCall}
    (hkeys : PlainRows call.batch.rows) (hstop : (call.run codec).Stops w.index index) :
    ∃ bytes m, w.map = .ok m ∧ bytes.length ≤ w.index.committed ∧
      Represents codec bytes w.index.root m ∧ w.index.file <+: index.file ∧ index.Holds bytes ∧
      (index.root ≠ w.index.root → ∃ bytes' m', call.plain m = .ok m' ∧ index.Holds bytes' ∧
        Represents codec bytes' index.root m') := by
  obtain ⟨bytes, m, hmap, hheld, hroot⟩ := h.current
  refine ⟨bytes, m, hmap, hheld.committed, hroot, ?_⟩
  have hat : w.index.At w.index.file w.index.root bytes := ⟨prefix_refl _, rfl, hheld⟩
  rcases (call.run_triple hkeys hroot).stops hat (.inl hat) hstop with
    hstay | ⟨m', hplain, hbase, bytes', hmore, hheld', hroot'⟩
  · exact ⟨hstay.base, hstay.holds, fun hne => absurd hstay.root hne⟩
  · have hold : index.Holds bytes :=
      ⟨hmore.trans hheld'.held, hmore.length_le.trans hheld'.committed⟩
    exact ⟨hbase, hold, fun _ => ⟨bytes', m', hplain, hheld', hroot'⟩⟩

theorem Step.sound (hstep : Step codec w w') (h : w.Sound codec) : w'.Sound codec := by
  cases hstep with
  | @done call hkeys hrun =>
    obtain ⟨bytes, m, hmap, hheld, hroot⟩ := h.current
    have hat : w.index.At w.index.file w.index.root bytes := ⟨prefix_refl _, rfl, hheld⟩
    have hends := (call.run_triple hkeys hroot).ends hat
    rw [hrun] at hends
    obtain ⟨m', hplain, hbase, bytes', -, hheld', hroot'⟩ := hends
    refine ⟨⟨bytes', m', ?_, hheld', hroot'⟩, fun publication hmem =>
      (h.published publication hmem).mono hbase⟩
    show w.map >>= call.plain = .ok m'
    rw [hmap]
    exact hplain
  | @stopped call index hkeys hstop =>
    obtain ⟨bytes, m, hmap, -, hroot, hfile, hheld, hnew⟩ := h.stops hkeys hstop
    refine ⟨?_, fun publication hmem => (h.published publication hmem).mono hfile⟩
    by_cases hsame : index.root = w.index.root
    · refine ⟨bytes, m, ?_, hheld, hsame ▸ hroot⟩
      show (if index.root = w.index.root then w.map else w.map >>= call.plain) = .ok m
      rw [if_pos hsame, hmap]
    · obtain ⟨bytes', m', hplain, hheld', hroot'⟩ := hnew hsame
      refine ⟨bytes', m', ?_, hheld', hroot'⟩
      show (if index.root = w.index.root then w.map else w.map >>= call.plain) = .ok m'
      rw [if_neg hsame, hmap]
      exact hplain
  | publish =>
    obtain ⟨bytes, m, hmap, hheld, hroot⟩ := h.current
    exact ⟨h.current, List.forall_mem_cons.mpr
      ⟨⟨bytes, m, hmap, hheld.held, hheld.committed, hroot⟩, h.published⟩⟩
  | @reopen publication file hmem hfile =>
    have hkept : ∀ {bytes : List UInt8}, bytes <+: w.index.file →
        bytes.length ≤ publication.committed → bytes <+: file := fun hheld hcommitted =>
      (List.prefix_take_iff.mpr ⟨hheld, hcommitted⟩).trans hfile
    obtain ⟨bytes, m, hmap, hheld, hcommitted, hroot⟩ := h.published publication hmem
    refine ⟨⟨bytes, m, hmap, ⟨hkept hheld hcommitted, hcommitted⟩, hroot⟩, fun other hother => ?_⟩
    obtain ⟨hother, hle⟩ := List.mem_filter.mp hother
    obtain ⟨bytes', m', hmap', hheld', hcommitted', hroot'⟩ := h.published other hother
    exact ⟨bytes', m', hmap', hkept hheld' (hcommitted'.trans (of_decide_eq_true hle)), hcommitted',
      hroot'⟩

theorem reach_sound (h : (pageIndex codec).Reach w) : w.Sound codec := by
  refine Lts.Reach.invariant (S := pageIndex codec) (I := fun w => World.Sound codec w) ?_ ?_ h
  · rintro _ rfl
    exact sound_init
  · intro _ _ _ hsound hstep
    exact Step.sound hstep hsound

theorem answers (hheld : index.Holds bytes) (h : Represents codec bytes index.root m) :
    Answers codec index m :=
  ⟨get_eq h hheld, all_eq h hheld⟩

/-- The page index is a finite map: whatever calls are made, stop early or follow on an index that
is opened again, it answers as the calls on a plain map, its tree is well-formed and low, the old
root survives every stop of the next call, and published roots go on answering. -/
theorem pageIndex_is_map (codec : Codec) {w : World} (h : (pageIndex codec).Reach w) :
    ∃ m, w.map = .ok m ∧ Answers codec w.index m ∧
      (∀ page, w.index.root = some page → ∃ height, height < maxDepth ∧ ∃ tree : Tree height,
        tree.page = page ∧ tree.rows = m.rows ∧ tree.Stored codec w.index.file) ∧
      (∀ (call : IndexCall) (index : Index), PlainRows call.batch.rows →
        (call.run codec).Stops w.index index →
        Answers codec ⟨index.file, w.index.root, index.committed⟩ m ∧
          Answers codec ⟨index.file, w.index.root, w.index.committed⟩ m) ∧
      ∀ publication ∈ w.published, ∃ m', publication.map = .ok m' ∧
        Answers codec ⟨w.index.file, publication.root, publication.committed⟩ m' := by
  have hsound := reach_sound h
  obtain ⟨bytes, m, hmap, hheld, hroot⟩ := hsound.current
  refine ⟨m, hmap, answers hheld hroot, fun page hpage => ?_, fun call index hkeys hstop => ?_,
    fun publication hmem => ?_⟩
  · obtain ⟨height, tree, htree⟩ := hroot.grown page hpage
    exact ⟨height, htree.height_lt, tree, htree.page, htree.rows, htree.stored.mono hheld.held⟩
  · obtain ⟨bytes', m', hmap', hcommitted, hroot', hfile, hheld', -⟩ := hsound.stops hkeys hstop
    obtain rfl : m = m' := by
      rw [hmap] at hmap'
      cases hmap'
      rfl
    exact ⟨answers ⟨hheld'.held, hheld'.committed⟩ hroot',
      answers ⟨hheld'.held, hcommitted⟩ hroot'⟩
  · obtain ⟨bytes', m', hmap', hheld', hcommitted, hroot'⟩ := hsound.published publication hmem
    exact ⟨m', hmap', answers ⟨hheld', hcommitted⟩ hroot'⟩

end

/-! ## Samples -/

/-- The hash on the pages of the samples. -/
def sampleHash (bytes : List UInt8) : String :=
  if bytes = (Node.leaf [("a", "1")]).toVec then
    "16f36a4c530942abd1a4b078fbd667e439fb37ea5456a413255ba18597af949a"
  else if bytes = (Node.leaf [("b", "2")]).toVec then
    "616d6deb385343f5a441a4499a8f9aac8be1478fc377ff2574025e2c18504007"
  else "0000000000000000000000000000000000000000000000000000000000000000"

noncomputable def sampleCodec : Codec where
  fromSlice := readBack
  sha256 := sampleHash
  fromSlice_toVec := readBack_toVec
  hashValid_sha256 bytes := by
    unfold sampleHash
    split
    · decide
    · split
      · decide +kernel
      · decide +kernel

def sampleEntries (key value : String) : SortedMap String String :=
  ⟨[(key, value)], List.pairwise_singleton _ _⟩

def Succeeds {α : Type} (m : Call α) (s : Index) (a : α) (t : Index) : Prop :=
  m.result s = .ok a ∧ m.after s = t

theorem Succeeds.bind {α β : Type} {m : Call α} {f : α → Call β} {s t u : Index} {a : α} {b : β}
    (h : Succeeds m s a t) (hrest : Succeeds (f a) t b u) : Succeeds (m >>= f) s b u := by
  obtain ⟨hresult, hafter⟩ := Durable.bind_of_result (f := f) h.1
  rw [h.2] at hresult hafter
  exact ⟨hresult.trans hrest.1, hafter.trans hrest.2⟩

theorem writeAll_run (bytes : List UInt8) (index : Index) :
    Succeeds (writeAll bytes) index () { index with file := index.file ++ bytes } := by
  induction bytes generalizing index with
  | nil =>
    refine ⟨rfl, ?_⟩
    rw [append_nil]
    rfl
  | cons byte bytes ih =>
    refine Succeeds.bind (t := { index with file := index.file ++ [byte] }) ⟨rfl, rfl⟩ ?_
    have hrest := ih { index with file := index.file ++ [byte] }
    rwa [append_assoc] at hrest

theorem write_run {codec : Codec} {node : Node} {last : String}
    (hlast : node.last = some last) (hvalid : node.valid = true)
    (hfits : node.toVec.length ≤ pageBytes)
    (hroom : index.file.length + node.toVec.length ≤ maxFileBytes) :
    Succeeds (write codec node) index
      ⟨last, index.file.length, node.toVec.length, codec.sha256 node.toVec⟩
      ⟨index.file ++ node.toVec, index.root, index.file.length + node.toVec.length⟩ := by
  unfold write
  refine Succeeds.bind (a := last) (t := index) ⟨by rw [hlast]; rfl, rfl⟩ ?_
  refine Succeeds.bind (a := ()) (t := index) ⟨?_, rfl⟩ ?_
  · show ensure _ _ = _
    exact if_pos ⟨hfits, hvalid⟩
  refine Succeeds.bind (a := index) (t := index) ⟨rfl, rfl⟩ ?_
  refine Succeeds.bind (a := ()) (t := index) ⟨?_, rfl⟩ ?_
  · show ensure _ _ = _
    exact if_pos hroom
  exact (writeAll_run node.toVec index).bind (.bind (a := ())
    (t := ⟨index.file ++ node.toVec, index.root, index.file.length + node.toVec.length⟩)
    ⟨rfl, rfl⟩ ⟨rfl, rfl⟩)

theorem build_leaf {codec : Codec} {entries : SortedMap String String}
    (hentries : entries.rows = [(key, value)]) (hvalid : (Node.leaf [(key, value)]).valid = true)
    (hfits : (Node.leaf [(key, value)]).toVec.length ≤ pageBytes)
    (hroom : index.file.length + (Node.leaf [(key, value)]).toVec.length ≤ maxFileBytes) :
    Succeeds (build codec entries) index ()
      ⟨index.file ++ (Node.leaf [(key, value)]).toVec,
        some ⟨index.file.length, (Node.leaf [(key, value)]).toVec.length,
          codec.sha256 (Node.leaf [(key, value)]).toVec⟩,
        index.file.length + (Node.leaf [(key, value)]).toVec.length⟩ := by
  have hleaves : buildLeaves codec entries.rows [] 0 [] = do
      let leaf ← write codec (.leaf [(key, value)])
      return [leaf] := by
    simp [hentries, buildLeaves]
  have hraise : ∀ leaf, raise codec 1 (by decide) [leaf] = pure [leaf] := fun leaf => by
    rw [raise, if_neg (by simp)]
  unfold build
  rw [hleaves]
  refine Succeeds.bind ((write_run rfl hvalid hfits hroom).bind ⟨rfl, rfl⟩) ?_
  rw [hraise]
  exact .bind ⟨rfl, rfl⟩ ⟨rfl, rfl⟩

def firstIndex : Index :=
  ⟨(Node.leaf [("a", "1")]).toVec, some ⟨0, 20, sampleHash (Node.leaf [("a", "1")]).toVec⟩, 20⟩

def secondIndex : Index :=
  ⟨firstIndex.file ++ (Node.leaf [("b", "2")]).toVec,
    some ⟨20, 20, sampleHash (Node.leaf [("b", "2")]).toVec⟩, 40⟩

theorem first_built :
    Succeeds (build sampleCodec (sampleEntries "a" "1")) .create () firstIndex := by
  have hlength : (Node.leaf [("a", "1")]).toVec.length = 20 := by decide +kernel
  have hbuilt : Succeeds (build sampleCodec (sampleEntries "a" "1")) .create () _ :=
    build_leaf rfl (by decide +kernel) (by decide) (by decide +kernel)
  rw [hlength] at hbuilt
  exact hbuilt

theorem second_built :
    Succeeds (build sampleCodec (sampleEntries "b" "2")) firstIndex () secondIndex := by
  have hfile : firstIndex.file.length = 20 := by decide
  have hlength : (Node.leaf [("b", "2")]).toVec.length = 20 := by decide
  have hbuilt : Succeeds (build sampleCodec (sampleEntries "b" "2")) firstIndex () _ :=
    build_leaf rfl (by decide +kernel) (by decide +kernel) (by decide +kernel)
  rw [hlength, hfile] at hbuilt
  exact hbuilt

theorem Step.of_build {w : World} (hkey : unescaped key = true)
    (h : Succeeds (build sampleCodec (sampleEntries key value)) w.index () index)
    (hmap : ∃ m, w.map = .ok m) :
    Step sampleCodec w ⟨index, .ok (sampleEntries key value), w.published⟩ := by
  obtain ⟨m, hmap⟩ := hmap
  have hkeys : PlainRows (sampleEntries key value).rows := by
    intro row hrow
    obtain rfl := List.mem_singleton.mp hrow
    exact hkey
  have hdone := @Step.done sampleCodec w (.build (sampleEntries key value)) hkeys h.1
  rw [show (IndexCall.run sampleCodec (.build (sampleEntries key value))).after w.index = index from
    h.2, hmap] at hdone
  exact hdone

theorem first_reached : (pageIndex sampleCodec).Reach
    ⟨firstIndex, .ok (sampleEntries "a" "1"), []⟩ :=
  Lts.Reach.next (S := pageIndex sampleCodec) (l := ()) (.init rfl)
    (Step.of_build (w := ⟨.create, .ok .empty, []⟩) (by decide +kernel) first_built ⟨_, rfl⟩)

theorem second_reached : (pageIndex sampleCodec).Reach
    ⟨secondIndex, .ok (sampleEntries "b" "2"), []⟩ :=
  Lts.Reach.next (S := pageIndex sampleCodec) (l := ()) first_reached
    (Step.of_build (w := ⟨firstIndex, .ok (sampleEntries "a" "1"), []⟩) (by decide)
      second_built ⟨_, rfl⟩)

theorem pageIndex_is_map_first : firstIndex.get sampleCodec "a" = .ok (some "1") := by
  obtain ⟨m, hmap, hanswers, -⟩ := pageIndex_is_map sampleCodec first_reached
  cases hmap
  have hfind : (sampleEntries "a" "1").find? "a" = some "1" := by decide +kernel
  rw [← hfind]
  exact hanswers.1 "a"

theorem get_of_reach {codec : Codec} {w : World}
    (h : (pageIndex codec).Reach w) (hmap : w.map = .ok m) (key : String) :
    w.index.get codec key = .ok (m.find? key) := by
  obtain ⟨bytes, m', hmap', hheld, hroot⟩ := (reach_sound h).current
  rw [hmap] at hmap'
  cases hmap'
  exact get_eq hroot hheld key

/-- The rows of a second `build` are not added to those of the first one. -/
theorem build_replaces : ¬ ∀ (entries : SortedMap String String) (key value : String)
    (first second : Index), Succeeds (build sampleCodec entries) .create () first →
    Succeeds (build sampleCodec (sampleEntries key value)) first () second →
    ∀ k, second.get sampleCodec k = .ok ((entries.insert key value).find? k) := by
  intro hadds
  have hget := hadds _ _ _ _ _ first_built second_built "a"
  rw [get_of_reach second_reached rfl] at hget
  exact absurd (Except.ok.inj hget) (by decide +kernel)

end NilsCli.Notice
