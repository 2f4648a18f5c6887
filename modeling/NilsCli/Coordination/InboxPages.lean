import NilsCli.Lib.Paging
import NilsCli.Coordination.MailLife

/-!
# Reading the inbox to its end

A reader follows the cursor that each page returns, while any other sections come between the
pages.
-/

namespace NilsCli.Coordination

open Lib List

variable {cursor next : Option String} {s t : State}

variable {codec : Codec} {env : Env} {renews : OperationLease → Prop} {r r' : Registry}
  {args : InboxArgs} {key : String}

/-! ## The order of a listing -/

/-- What the listing is ordered by. -/
def StoredMessage.place (message : StoredMessage) : Int × String :=
  (message.createdAtEpoch, message.messageId)

def MessageMetadata.place (row : MessageMetadata) : Int × String :=
  (row.createdAtEpoch, row.messageId)

def InboxCursor.place (cursor : InboxCursor) : Int × String :=
  (cursor.afterCreatedAtEpoch, cursor.afterMessageId)

/-- The strict order of places. -/
def placeBefore (a b : Int × String) : Prop := a.1 < b.1 ∨ a.1 = b.1 ∧ textLt a.2 b.2

theorem placeBefore_irrefl (a : Int × String) : ¬ placeBefore a a := by
  rintro (h | ⟨-, h⟩)
  · omega
  · exact (textLt_iff.mp h).2 rfl

theorem placeBefore_trans (a b c : Int × String) (h : placeBefore a b) (h' : placeBefore b c) :
    placeBefore a c := by
  refine lex_trans h h' fun h h' => ?_
  obtain ⟨hle, hne⟩ := textLt_iff.mp h
  refine textLt_iff.mpr ⟨textLe_trans hle (textLt_iff.mp h').1, fun heq => ?_⟩
  exact hne (textLe_antisymm hle (heq ▸ (textLt_iff.mp h').1))

theorem listedBefore_iff {a b : StoredMessage} : listedBefore a b ↔
    a.createdAtEpoch < b.createdAtEpoch ∨
      a.createdAtEpoch = b.createdAtEpoch ∧ textLe a.messageId b.messageId := by
  simp only [listedBefore, Bool.or_eq_true, Bool.and_eq_true, decide_eq_true_eq]

theorem listedBefore_total (a b : StoredMessage) : listedBefore a b || listedBefore b a := by
  rw [Bool.or_eq_true, listedBefore_iff, listedBefore_iff]
  have htotal := textLe_total a.messageId b.messageId
  rw [Bool.or_eq_true] at htotal
  rcases lt_trichotomy a.createdAtEpoch b.createdAtEpoch with h | h | h
  · exact .inl (.inl h)
  · exact htotal.imp (fun hle => .inr ⟨h, hle⟩) fun hle => .inr ⟨h.symm, hle⟩
  · exact .inr (.inl h)

theorem listedBefore_trans {a b c : StoredMessage} (h : listedBefore a b) (h' : listedBefore b c) :
    listedBefore a c := by
  rw [listedBefore_iff] at *
  exact lex_trans h h' textLe_trans

/-- Messages with unique ids are listed in strict order. -/
theorem listing_pairwise {messages : List StoredMessage}
    (hids : (messages.map (·.messageId)).Nodup) :
    ((args.listing messages).map (·.place)).Pairwise placeBefore := by
  have hnodup : ((args.listing messages).map (·.messageId)).Nodup := by
    refine ((perm_sortBy _ _).map _).nodup_iff.mpr ?_
    exact (List.filter_sublist.map _).nodup hids
  rw [pairwise_map]
  have hsorted : (args.listing messages).Pairwise fun a b => listedBefore a b :=
    pairwise_sortBy listedBefore_total listedBefore_trans _
  refine (hsorted.and (List.pairwise_map.mp hnodup)).imp fun ⟨hle, hne⟩ => ?_
  rcases listedBefore_iff.mp hle with hlt | ⟨heq, hle⟩
  · exact .inl hlt
  · exact .inr ⟨heq, textLt_iff.mpr ⟨hle, hne⟩⟩

theorem passed_iff {cursor : InboxCursor} {message : StoredMessage} :
    cursor.passed message ↔ placeBefore cursor.place message.place := by
  simp only [InboxCursor.passed, Bool.or_eq_true, Bool.and_eq_true, decide_eq_true_eq]
  rfl

/-! ## One page -/

/-- The registry that a page is read from. -/
def pageRegistry (codec : Codec) (env : Env) (r : Registry) : Registry :=
  cleanExpired env env.now (lockRegistry codec env r)

def pageListing (codec : Codec) (env : Env) (args : InboxArgs) (r : Registry) :
    List StoredMessage := args.listing (pageRegistry codec env r).messages

theorem pageRegistry_moves :
    Moves codec env (Renewed env r) r (pageRegistry codec env r) :=
  lockRegistry_moves.trans cleanExpired_moves

/-- The place that the reader has reached. -/
def placeOf (r : Registry) (args : InboxArgs) : Option (Int × String) :=
  args.cursor.bind fun key => (r.cursors.lookup key).map (·.place)

theorem drop_findIdx {cursor : InboxCursor} {listing : List StoredMessage}
    (hs : (listing.map (·.place)).Pairwise placeBefore) :
    (∀ m ∈ listing.take (listing.findIdx cursor.passed), ¬ placeBefore cursor.place m.place) ∧
      ∀ m ∈ listing.drop (listing.findIdx cursor.passed), placeBefore cursor.place m.place := by
  induction listing with
  | nil => exact ⟨by simp, by simp⟩
  | cons x xs ih =>
    rw [map_cons, pairwise_cons] at hs
    rw [findIdx_cons]
    by_cases hx : cursor.passed x
    · rw [hx]
      refine ⟨by simp, fun m hm => ?_⟩
      rcases List.mem_cons.mp hm with rfl | hm
      · exact passed_iff.mp hx
      · exact placeBefore_trans _ _ _ (passed_iff.mp hx) (hs.1 _ (mem_map_of_mem hm))
    · obtain ⟨hbefore, hafter⟩ := ih hs.2
      simp only [hx, cond_false, take_succ_cons, drop_succ_cons]
      refine ⟨fun m hm => ?_, hafter⟩
      rcases List.mem_cons.mp hm with rfl | hm
      · exact fun hp => hx (passed_iff.mpr hp)
      · exact hbefore m hm

/-- A page that starts at the place of the request. -/
theorem pageAt_of_start {locked : Registry} {start limit : Nat} {now : Int}
    (hs : ((args.listing locked.messages).map (·.place)).Pairwise placeBefore)
    (h : inboxStart args locked (args.listing locked.messages) now = .ok start) :
    PageAt placeBefore (placeOf locked args)
      ⟨(args.listing locked.messages).map (·.place),
        (((args.listing locked.messages).drop start).take limit).map (·.place)⟩
      ((((args.listing locked.messages).drop start).drop limit).map (·.place)) := by
  generalize args.listing locked.messages = listing at hs h
  have hsplit : listing.map (·.place) = (listing.take start).map (·.place) ++
      (((listing.drop start).take limit).map (·.place) ++
        ((listing.drop start).drop limit).map (·.place)) := by
    rw [← map_append, ← map_append, take_append_drop, take_append_drop]
  unfold inboxStart at h
  split at h
  case h_1 hcursor =>
    cases h
    have hplace : placeOf locked args = none := by rw [placeOf, hcursor]; rfl
    rw [hplace]
    exact ⟨hs, ⟨_, hsplit, fun k hk => nomatch hk⟩, fun k _ p hp => nomatch hp⟩
  case h_2 key hcursor =>
    simp only [bind_eq_ok, orErr_eq_ok] at h
    obtain ⟨cursor, hlookup, _, -, h⟩ := h
    cases h
    have hplace : placeOf locked args = some cursor.place := by
      rw [placeOf, hcursor, Option.bind_some, hlookup]
      rfl
    obtain ⟨hbefore, hafter⟩ := @drop_findIdx cursor listing hs
    rw [hplace]
    refine ⟨hs, ⟨_, hsplit, fun k hk hafter => ?_⟩, fun k hk p hp => ?_⟩
    · obtain ⟨m, hm, rfl⟩ := List.mem_map.mp hk
      exact hbefore m hm (hafter _ rfl)
    · cases hp
      obtain ⟨m, hm, rfl⟩ := List.mem_map.mp hk
      exact hafter m (mem_of_mem_take hm)

theorem inbox_page {rows : List MessageMetadata}
    (h : inbox env args r = .ok (r', .inbox rows next)) :
    let locked := cleanExpired env env.now r
    ∃ start limit, inboxStart args locked (args.listing locked.messages) env.now = .ok start ∧
      rows = (((args.listing locked.messages).drop start).take limit).map metadata ∧
      (next = none → ((args.listing locked.messages).drop start).drop limit = []) ∧
      ∀ key, next = some key → ∃ last,
        (((args.listing locked.messages).drop start).take limit).getLast? = some last ∧
        keepCursor env args last locked = .ok (r', key) := by
  intro locked
  have hlocked : cleanExpired env env.now r = locked := rfl
  clear_value locked
  unfold inbox at h
  simp only [bind_eq_ok, ensure_eq_ok, exists_const, hlocked] at h
  obtain ⟨⟨hlimit, -⟩, -, -, start, hstart, h⟩ := h
  refine ⟨start, args.limit.getD defaultPage, hstart, ?_⟩
  generalize hlist : args.listing locked.messages = listing at h
  generalize args.limit.getD defaultPage = limit at hlimit h
  split at h
  case h_1 hnone =>
    cases h
    rw [getLast?_eq_none_iff, take_eq_nil_iff] at hnone
    refine ⟨rfl, fun _ => ?_, fun key hkey => (by cases hkey)⟩
    rw [hnone.resolve_left hlimit, drop_nil]
  case h_2 last hlast =>
    split at h
    · rw [bind_eq_ok] at h
      obtain ⟨⟨kept, key⟩, hkeep, h⟩ := h
      cases h
      refine ⟨rfl, fun hnone => (by cases hnone), fun key' hkey => ?_⟩
      cases hkey
      exact ⟨last, hlast, hkeep⟩
    · rename_i hend
      cases h
      refine ⟨rfl, fun _ => ?_, fun key hkey => (by cases hkey)⟩
      rw [length_take, length_drop] at hend
      rw [drop_drop, drop_eq_nil_iff]
      omega

theorem inbox_spec {rows : List MessageMetadata} (hids : (r.messages.map (·.messageId)).Nodup)
    (h : exec codec env (.inbox args) r = (r', .ok (.inbox rows next))) :
    ∃ rest, PageAt placeBefore (placeOf (pageRegistry codec env r) args)
        ⟨(pageListing codec env args r).map (·.place), rows.map (·.place)⟩ rest ∧
      (∀ key, args.cursor = some key →
        ((pageRegistry codec env r).cursors.lookup key).isSome) ∧
      (next = none → rest = []) ∧
      ∀ key, next = some key → ∃ last : StoredMessage,
        (rows.map (·.place)).getLast? = some last.place ∧
        keepCursor env args last (pageRegistry codec env r) = .ok (r', key) := by
  have hids' : ((pageRegistry codec env r).messages.map (·.messageId)).Nodup :=
    (Moves.posts pageRegistry_moves).ids_sublist.nodup hids
  have hinbox : inbox env args (lockRegistry codec env r) = .ok (r', .inbox rows next) := by
    change commit (lockRegistry codec env r) (inbox env args (lockRegistry codec env r)) = _ at h
    unfold commit at h
    split at h
    case h_1 heq => rw [heq]; cases h; rfl
    case h_2 => cases h
  obtain ⟨start, limit, hstart, rfl, hnone, hsome⟩ := inbox_page hinbox
  have hplaces (page : List StoredMessage) : (page.map metadata).map (·.place) =
      page.map (·.place) := by
    rw [map_map]
    rfl
  have hpage := @pageAt_of_start args (pageRegistry codec env r) start limit env.now
    (listing_pairwise hids') hstart
  rw [hplaces]
  refine ⟨_, hpage, fun key hk => ?_, fun hn => ?_, fun key hk => ?_⟩
  · unfold inboxStart at hstart
    simp only [hk, bind_eq_ok, orErr_eq_ok] at hstart
    obtain ⟨cursor, hlookup, -⟩ := hstart
    exact Option.isSome_iff_exists.mpr ⟨cursor, hlookup⟩
  · exact congrArg (List.map (·.place)) (hnone hn)
  · obtain ⟨last, hlast, hkeep⟩ := hsome key hk
    refine ⟨last, ?_, hkeep⟩
    rw [getLast?_map, hlast]
    rfl

/-! ## Cursors -/

theorem keepCursor_spec {last : StoredMessage} (h : keepCursor env args last r = .ok (r', key)) :
    (∃ cursor, r'.cursors.lookup key = some cursor ∧ cursor.place = last.place) ∧
      (key = env.uuid ∨ (r.cursors.lookup key).isSome) ∧
      ∀ key' cursor', r'.cursors.lookup key' = some cursor' →
        (∃ cursor, r.cursors.lookup key' = some cursor ∧ cursor'.place = cursor.place) ∨
          key' = env.uuid := by
  unfold keepCursor at h
  dsimp only at h
  split at h
  case h_1 found hfound =>
    cases h
    obtain ⟨⟨k, cursor⟩, hfind, rfl⟩ := Option.map_eq_some_iff.mp hfound
    have hmem := mem_sortBy.mp (List.mem_of_find?_eq_some hfind)
    have hlookup : r.cursors.lookup k = some cursor := Table.lookup_eq_some_iff.mpr hmem
    have hsame := List.find?_some hfind
    simp only [InboxCursor.samePlace, Bool.and_eq_true, decide_eq_true_eq] at hsame
    refine ⟨⟨_, by rw [Table.lookup_modify_self, hlookup]; rfl, ?_⟩, .inr (by simp [hlookup]), ?_⟩
    · exact Prod.ext hsame.1.2 hsame.2
    · intro key' cursor' hl
      rw [Table.lookup_modify] at hl
      split at hl
      · obtain ⟨x, hx, rfl⟩ := Option.map_eq_some_iff.mp hl
        exact .inl ⟨x, hx, rfl⟩
      · exact .inl ⟨cursor', hl, rfl⟩
  case h_2 =>
    simp only [bind_eq_ok] at h
    obtain ⟨_, -, _, -, h⟩ := h
    cases h
    refine ⟨⟨_, AList.lookup_insert _, rfl⟩, .inl rfl, fun key' cursor' hl => ?_⟩
    by_cases hk : key' = env.uuid
    · exact .inr hk
    · rw [AList.lookup_insert_ne hk] at hl
      exact .inl ⟨cursor', hl, rfl⟩

/-- The cursors of `r'` are cursors of `r`, at the places they had, or have the drawn id. -/
def KeepsPlaces (env : Env) (r r' : Registry) : Prop :=
  ∀ key cursor', r'.cursors.lookup key = some cursor' →
    (∃ cursor, r.cursors.lookup key = some cursor ∧ cursor'.place = cursor.place) ∨
      key = env.uuid

theorem KeepsPlaces.of_eq (h : r'.cursors = r.cursors) : KeepsPlaces env r r' :=
  fun _ cursor' hl => .inl ⟨cursor', h ▸ hl, rfl⟩

theorem KeepsPlaces.trans {r'' : Registry} (h : KeepsPlaces env r r')
    (h' : KeepsPlaces env r' r'') : KeepsPlaces env r r'' := by
  intro key cursor'' hl
  rcases h' key cursor'' hl with ⟨cursor', hl', heq⟩ | hk
  · rcases h key cursor' hl' with ⟨cursor, hlookup, heq'⟩ | hk
    · exact .inl ⟨cursor, hlookup, heq.trans heq'⟩
    · exact .inr hk
  · exact .inr hk

theorem Move.keepsPlaces (h : Move codec env renews r r') : KeepsPlaces env r r' := by
  cases h with
  | dropCursors p acknowledgements observations =>
    intro key cursor' hl
    rw [Table.lookup_filter, Option.filter_eq_some_iff] at hl
    exact .inl ⟨cursor', hl.1, rfl⟩
  | keepCursor args last key cursors h => exact (keepCursor_spec h).2.2
  | store key digest outcome hop free hstore =>
    obtain ⟨receipts, evictions, rfl, -⟩ := storeReceipt_spec hstore
    exact .of_eq rfl
  | accept envelope outcome free hstore =>
    obtain ⟨receipts, evictions, rfl, -⟩ := storeReceipt_spec hstore
    exact .of_eq rfl
  | drain event lease now hnow hevent hlease accepts hstore =>
    obtain ⟨receipts, evictions, rfl, -⟩ := storeReceipt_spec hstore
    exact .of_eq rfl
  | mail | fingerprint | dropReceipts | leases | claims | endWork | retireClaims | dropEvents
    | addEvent | brokers => exact .of_eq rfl

theorem Moves.keepsPlaces (h : Moves codec env renews r r') : KeepsPlaces env r r' := by
  induction h with
  | refl => exact .of_eq rfl
  | tail _ hm ih => exact ih.trans hm.keepsPlaces

theorem SectionMoves.keepsPlaces (h : SectionMoves codec env renews r r') :
    KeepsPlaces env r r' := by
  obtain ⟨r₁, r₂, h₁, hadd, h₂⟩ := h
  have hadded : KeepsPlaces env r₁ r₂ := by
    rcases hadd with rfl | hadd
    · exact .of_eq rfl
    · cases hadd with
      | claim | lease | message => exact .of_eq rfl
  exact ((Moves.keepsPlaces h₁).trans hadded).trans (Moves.keepsPlaces h₂)

/-- The ids of the cursors were drawn. -/
def CursorsIssued (s : State) : Prop :=
  ∀ key, (s.registry.cursors.lookup key).isSome → key ∈ s.issued

def Pinned (key : String) (place : Int × String) (s : State) : Prop :=
  key ∈ s.issued ∧ ∀ cursor, s.registry.cursors.lookup key = some cursor → cursor.place = place

theorem CursorsIssued.step {s t : State} {l : Env × Section} (hs : Sound s) (h : CursorsIssued s)
    (hst : (system codec).step l s t) : CursorsIssued t := by
  obtain ⟨-, rfl⟩ := hst
  intro key hsome
  obtain ⟨cursor, hl⟩ := Option.isSome_iff_exists.mp hsome
  rcases (@exec_moves codec l.1 _ hs.work l.2).keepsPlaces key cursor hl with ⟨cursor', hl', -⟩ | hk
  · exact mem_cons_of_mem _ (h key (by rw [hl']; rfl))
  · exact hk ▸ mem_cons_self

theorem Pinned.step {s t : State} {l : Env × Section} {place : Int × String} (hs : Sound s)
    (h : Pinned key place s) (hst : (system codec).step l s t) : Pinned key place t := by
  obtain ⟨huuid, rfl⟩ := hst
  refine ⟨mem_cons_of_mem _ h.1, fun cursor hl => ?_⟩
  rcases (@exec_moves codec l.1 _ hs.work l.2).keepsPlaces key cursor hl with ⟨cursor', hl', heq⟩ | hk
  · exact heq.trans (h.2 cursor' hl')
  · exact absurd (hk ▸ h.1) huuid

/-! ## A reading -/

structure InboxPage where
  env : Env
  state : State
  rows : List MessageMetadata

def InboxPage.listing (codec : Codec) (args : InboxArgs) (page : InboxPage) : List StoredMessage :=
  pageListing codec page.env args page.state.registry

/-- The request of the page with this cursor and limit, as the reader of `args` makes it. -/
structure Requested (codec : Codec) (args : InboxArgs) (cursor : Option String) (page : InboxPage)
    (next : Option String) (t : State) : Prop where
  step : ∃ limit, (freshSystem codec).step
      (page.env, .inbox { args with cursor := cursor, limit := limit }) page.state t ∧
    (exec codec page.env (.inbox { args with cursor := cursor, limit := limit })
      page.state.registry).2 = .ok (.inbox page.rows next)

inductive Reads (codec : Codec) (args : InboxArgs) :
    Option String → State → List InboxPage → State → Prop
  | last {cursor : Option String} {s t : State} {ls : List (Env × Section)} {page : InboxPage}
      (hothers : (freshSystem codec).Run ls s page.state)
      (h : Requested codec args cursor page none t) : Reads codec args cursor s [page] t
  | next {cursor : Option String} {s t u : State} {ls : List (Env × Section)} {page : InboxPage}
      {key : String} {pages : List InboxPage} (hothers : (freshSystem codec).Run ls s page.state)
      (h : Requested codec args cursor page (some key) t) (hr : Reads codec args (some key) t pages u) :
      Reads codec args cursor s (page :: pages) u

structure ReaderAt (cursor : Option String) (place : Option (Int × String)) (s : State) : Prop where
  sound : Sound s
  kept : WellKept s.registry
  issued : CursorsIssued s
  first : cursor = none → place = none
  pinned : ∀ key, cursor = some key → ∃ p, place = some p ∧ Pinned key p s

theorem ReaderAt.step {cursor : Option String} {place : Option (Int × String)} {s t : State}
    {l : Env × Section} (h : ReaderAt cursor place s) (hst : (freshSystem codec).step l s t) :
    ReaderAt cursor place t := by
  obtain ⟨hfresh, hst⟩ := hst
  refine ⟨h.sound.step hst, ?_, h.issued.step h.sound hst, h.first, fun key hk => ?_⟩
  · obtain ⟨-, rfl⟩ := hst
    exact h.kept.sectionMoves hfresh (exec_moves h.sound.work l.2)
  · obtain ⟨p, hp, hpinned⟩ := h.pinned key hk
    exact ⟨p, hp, hpinned.step h.sound hst⟩

theorem ReaderAt.run {place : Option (Int × String)}
    {ls : List (Env × Section)} (h : ReaderAt cursor place s) (hr : (freshSystem codec).Run ls s t) :
    ReaderAt cursor place t :=
  Lts.Run.preserves (S := freshSystem codec) (I := ReaderAt cursor place)
    (fun _ _ _ hs => hs.step) hr h

def InboxPage.places (codec : Codec) (args : InboxArgs) (page : InboxPage) : Page (Int × String) :=
  ⟨(page.listing codec args).map (·.place), page.rows.map (·.place)⟩

theorem ReaderAt.requested {place : Option (Int × String)}
    {page : InboxPage} (h : ReaderAt cursor place page.state)
    (hreq : Requested codec args cursor page next t) :
    ∃ rest, PageAt placeBefore place (page.places codec args) rest ∧ (next = none → rest = []) ∧
      ∀ key, next = some key → ∃ last, (page.places codec args).rows.getLast? = some last ∧
        ReaderAt next (some last) t := by
  obtain ⟨limit, hst, hout⟩ := hreq
  have hnext := @ReaderAt.step codec none none page.state t _
    ⟨h.sound, h.kept, h.issued, fun _ => rfl, fun key hk => nomatch hk⟩ hst
  obtain ⟨-, huuid, rfl⟩ := hst
  have hexec : exec codec page.env (.inbox { args with cursor := cursor, limit := limit })
      page.state.registry = (_, .ok (.inbox page.rows next)) := Prod.ext rfl hout
  obtain ⟨rest, hpage, hsome, hend, hkept⟩ := inbox_spec h.kept.ids hexec
  have hmoves := Moves.keepsPlaces (@pageRegistry_moves codec page.env page.state.registry)
  have hplace : placeOf (pageRegistry codec page.env page.state.registry)
      { args with cursor := cursor, limit := limit } = place := by
    unfold placeOf
    cases cursor with
    | none => exact (h.first rfl).symm
    | some key =>
      obtain ⟨p, rfl, hissued, hpinned⟩ := h.pinned key rfl
      obtain ⟨c, hc⟩ := Option.isSome_iff_exists.mp (hsome key rfl)
      rw [Option.bind_some, hc, Option.map_some]
      rcases hmoves key c hc with ⟨c', hc', heq⟩ | hk
      · rw [heq, hpinned c' hc']
      · exact absurd (hk ▸ hissued) huuid
  rw [hplace] at hpage
  refine ⟨rest, hpage, hend, fun key hk => ?_⟩
  obtain ⟨last, hlast, hkeep⟩ := hkept key hk
  obtain ⟨⟨c, hc, hcplace⟩, hkey, -⟩ := keepCursor_spec hkeep
  refine ⟨last.place, hlast, hnext.sound, hnext.kept, hnext.issued, fun hnone => ?_,
    fun key' hk' => ?_⟩
  · rw [hk] at hnone
    cases hnone
  · obtain rfl : key = key' := Option.some.inj (hk.symm.trans hk')
    exact ⟨_, rfl, hnext.issued key (by rw [hc]; rfl), fun c' hc' =>
      Option.some.inj (hc.symm.trans hc') ▸ hcplace⟩

theorem Reads.reading {place : Option (Int × String)}
    {pages : List InboxPage} (hr : Reads codec args cursor s pages t)
    (h : ReaderAt cursor place s) :
    Reading placeBefore place (pages.map (InboxPage.places codec args)) := by
  induction hr generalizing place with
  | last hothers hreq =>
    obtain ⟨rest, hpage, hend, -⟩ := (h.run hothers).requested hreq
    rw [hend rfl] at hpage
    exact .last hpage
  | next hothers hreq hr ih =>
    obtain ⟨rest, hpage, -, hkey⟩ := (h.run hothers).requested hreq
    obtain ⟨last, hlast, hnext⟩ := hkey _ rfl
    exact .next hpage hlast (ih hnext)

/-! ## Result -/

theorem cursorsIssued_of_reach (h : (freshSystem codec).Reach s) : CursorsIssued s := by
  have hboth := Lts.Reach.invariant (S := freshSystem codec)
    (I := fun s => Sound s ∧ CursorsIssued s) ?_ ?_ h
  · exact hboth.2
  · rintro s rfl
    refine ⟨sound_of_reach (Lts.Reach.init (S := system codec) rfl), fun key hsome => ?_⟩
    cases hsome
  · rintro l s t ⟨hs, hc⟩ ⟨-, hst⟩
    exact ⟨hs.step hst, hc.step hs hst⟩

theorem flatMap_places (args : InboxArgs) (pages : List InboxPage) :
    (pages.map (InboxPage.places codec args)).flatMap (·.rows) =
      (pages.flatMap (·.rows)).map (·.place) := by
  rw [flatMap_map, map_flatMap]
  rfl

/-- The rows of a reading to the end are strictly in order. A message that matches the filter at
every request from some page on, and comes after the rows returned before that page, is returned
exactly once. -/
theorem inbox_lossless {s t : State} {pages : List InboxPage} (hs : (freshSystem codec).Reach s)
    (h : Reads codec args none s pages t) :
    (pages.flatMap (·.rows)).Pairwise (fun a b => placeBefore a.place b.place) ∧
    ∀ (pre post : List InboxPage) (place : Int × String), pages = pre ++ post → post ≠ [] →
      (∀ row ∈ pre.flatMap (·.rows), placeBefore row.place place) →
      (∀ page ∈ post, ∃ m ∈ page.listing codec args, m.place = place) →
      ((pages.flatMap (·.rows)).map (·.place)).count place = 1 := by
  have hat : ReaderAt none none s := ⟨sound_of_reach hs.of_restrict, wellKept_of_reach hs,
    cursorsIssued_of_reach hs, fun _ => rfl, fun key hk => nomatch hk⟩
  have hreading := h.reading hat
  refine ⟨?_, ?_⟩
  · have hpairs := hreading.pairwise placeBefore_trans
    rw [flatMap_places, List.pairwise_map] at hpairs
    exact hpairs
  · rintro pre post place rfl hpost hpre hall
    rw [List.map_append] at hreading
    have hcount := hreading.count_eq_one placeBefore_trans placeBefore_irrefl
      (by simpa using hpost) (k := place) (fun p hp => nomatch hp) ?_ ?_
    · rwa [← List.map_append, flatMap_places] at hcount
    · rw [flatMap_places]
      intro x hx
      obtain ⟨row, hrow, rfl⟩ := List.mem_map.mp hx
      exact hpre row hrow
    · intro page hpage
      obtain ⟨p, hp, rfl⟩ := List.mem_map.mp hpage
      obtain ⟨m, hm, rfl⟩ := hall p hp
      exact List.mem_map_of_mem hm

/-! The second session of the sample host reads its mail; a message comes between the pages. -/

def betaInbox (cursor : Option String) (limit : Nat) : InboxArgs :=
  ⟨"beta", "launch-1", none, [], some limit, cursor⟩

/-- The rows of the answer to a request. -/
def rowsOf (env : Env) (args : InboxArgs) (s : State) : List MessageMetadata :=
  match (exec sampleCodec env (.inbox args) s.registry).2 with
  | .ok (.inbox rows _) => rows
  | _ => []

def twoSent : State :=
  execAll sampleCodec (mailRun ++ [(sampleEnv 1003 "id-4", .send (sampleSend 2))])
    ⟨Registry.empty, []⟩

def firstRead : State :=
  execAll sampleCodec [(sampleEnv 1004 "id-5", .inbox (betaInbox none 1))] twoSent

def thirdSent : State :=
  execAll sampleCodec [(sampleEnv 1005 "id-6", .send (sampleSend 3))] firstRead

def firstPage : InboxPage :=
  ⟨sampleEnv 1004 "id-5", twoSent, rowsOf (sampleEnv 1004 "id-5") (betaInbox none 1) twoSent⟩

def secondPage : InboxPage :=
  ⟨sampleEnv 1006 "id-7", thirdSent,
    rowsOf (sampleEnv 1006 "id-7") (betaInbox (some "id-5") 2) thirdSent⟩

theorem inbox_lossless_sample :
    ([firstPage, secondPage].flatMap (·.rows)).map (·.place) =
        [(1002, "id-3"), (1003, "id-4"), (1005, "id-6")] ∧
      ([firstPage, secondPage].flatMap (·.rows)).Pairwise
        (fun a b => placeBefore a.place b.place) ∧
      (([firstPage, secondPage].flatMap (·.rows)).map (·.place)).count (1003, "id-4") = 1 := by
  have hfirst : (freshSystem sampleCodec).Run
      (mailRun ++ [(sampleEnv 1003 "id-4", .send (sampleSend 2))]) ⟨Registry.empty, []⟩ twoSent :=
    run_restrict_execAll (by decide) (fun _ _ => List.not_mem_nil) (by decide)
  have hbetween : (freshSystem sampleCodec).Run
      ([(sampleEnv 1005 "id-6", .send (sampleSend 3))] : List (Env × Section)) firstRead thirdSent :=
    run_restrict_execAll (by decide) (by decide) (by decide)
  have hfirstPage : Requested sampleCodec (betaInbox none 1) none firstPage (some "id-5")
      firstRead := by
    refine ⟨some 1, ⟨?_, ?_, rfl⟩, ok_of_toOption ?_⟩
    · decide
    · decide
    · decide
  have hsecondPage : Requested sampleCodec (betaInbox none 1) (some "id-5") secondPage none
      (execAll sampleCodec [(sampleEnv 1006 "id-7", .inbox (betaInbox (some "id-5") 2))]
        thirdSent) := by
    refine ⟨some 2, ⟨?_, ?_, rfl⟩, ok_of_toOption ?_⟩
    · decide
    · decide
    · decide
  have hreads : Reads sampleCodec (betaInbox none 1) none ⟨Registry.empty, []⟩
      [firstPage, secondPage] _ := .next hfirst hfirstPage (.last hbetween hsecondPage)
  obtain ⟨hpairs, hcount⟩ := inbox_lossless (Lts.Reach.init (S := freshSystem sampleCodec) rfl) hreads
  refine ⟨by decide, hpairs, hcount [] [firstPage, secondPage] (1003, "id-4") rfl (by simp)
    (by simp) (by decide)⟩

end NilsCli.Coordination
