import NilsCli.Devlog.Glue

/-!
# Valid documents

A document is `Valid` when its preamble and its blocks are pieces of a month file.
-/

namespace NilsCli.Devlog

open Lib List

variable {b : Block} {month : Month} {piece before after : List Text}

variable {text contents : Text} {doc doc' : Document} {entry : Block} {entries : List Block}

theorem add_eq_ok : doc.add entry = .ok doc' ↔ entry.date.month = doc.month ∧
    doc.entries.find? entry.identity = none ∧
    doc' = { doc with entries := doc.entries.insert entry.identity entry } := by
  unfold Document.add
  by_cases hmonth : entry.date.month = doc.month
  · rw [if_neg (not_not.mpr hmonth)]
    cases hfind : doc.entries.find? entry.identity with
    | none =>
      simp only [Except.ok.injEq, hmonth, true_and]
      exact eq_comm
    | some existing =>
      simp only
      constructor
      · intro h
        split at h <;> cases h
      · rintro ⟨-, h, -⟩
        cases h
  · rw [if_pos hmonth]
    constructor
    · intro h
      cases h
    · exact fun h => absurd h.1 hmonth

theorem foldlM_add_eq_ok : entries.foldlM Document.add doc = .ok doc' ↔
    (∀ entry ∈ entries, entry.date.month = doc.month ∧ doc.entries.find? entry.identity = none) ∧
    (entries.map (·.identity)).Nodup ∧ doc'.month = doc.month ∧ doc'.preamble = doc.preamble ∧
    ∀ k b, doc'.entries.find? k = some b ↔
      (b ∈ entries ∧ b.identity = k) ∨ doc.entries.find? k = some b := by
  induction entries generalizing doc with
  | nil =>
    rw [foldlM_nil]
    constructor
    · rintro h
      cases h
      simp
    · rintro ⟨-, -, hmonth, hpreamble, hfind⟩
      have hentries : doc.entries = doc'.entries := by
        refine SortedMap.ext_find? fun k => ?_
        ext b
        rw [hfind k b]
        simp
      have hdoc : doc = ⟨doc'.month, doc'.preamble, doc'.entries⟩ := by
        rw [hmonth, hpreamble, ← hentries]
      exact congrArg Except.ok hdoc
  | cons entry entries ih =>
    have hinsert : ∀ k b, (doc.entries.insert entry.identity entry).find? k = some b ↔
        (b = entry ∧ entry.identity = k) ∨ (k ≠ entry.identity ∧ doc.entries.find? k = some b) := by
      intro k b
      by_cases hk : k = entry.identity
      · rw [hk, SortedMap.find?_insert_self, Option.some_inj]
        simp only [ne_eq, not_true, false_and, or_false, and_true]
        exact eq_comm
      · rw [SortedMap.find?_insert_of_ne _ _ hk]
        simp only [ne_eq, hk, not_false_eq_true, true_and, Ne.symm hk, and_false, false_or]
    have hnone : ∀ k, (doc.entries.insert entry.identity entry).find? k = none ↔
        k ≠ entry.identity ∧ doc.entries.find? k = none := by
      intro k
      by_cases hk : k = entry.identity
      · rw [hk, SortedMap.find?_insert_self]
        simp
      · rw [SortedMap.find?_insert_of_ne _ _ hk]
        simp [hk]
    rw [foldlM_cons, bind_eq_ok]
    constructor
    · rintro ⟨mid, hadd, hrest⟩
      obtain ⟨hmonth, hnew, rfl⟩ := add_eq_ok.mp hadd
      obtain ⟨hall, hnodup, hmonth', hpreamble', hfind⟩ := ih.mp hrest
      refine ⟨?_, ?_, hmonth', hpreamble', fun k b => ?_⟩
      · rintro e (_ | ⟨_, he⟩)
        · exact ⟨hmonth, hnew⟩
        · exact ⟨(hall e he).1, ((hnone _).mp (hall e he).2).2⟩
      · rw [map_cons, nodup_cons]
        refine ⟨fun hmem => ?_, hnodup⟩
        obtain ⟨e, he, heq⟩ := List.mem_map.mp hmem
        exact ((hnone _).mp (hall e he).2).1 heq
      · rw [hfind k b, hinsert, mem_cons]
        constructor
        · rintro (⟨hb, heq⟩ | ⟨rfl, heq⟩ | ⟨-, hb⟩)
          · exact .inl ⟨.inr hb, heq⟩
          · exact .inl ⟨.inl rfl, heq⟩
          · exact .inr hb
        · rintro (⟨rfl | hb, heq⟩ | hb)
          · exact .inr (.inl ⟨rfl, heq⟩)
          · exact .inl ⟨hb, heq⟩
          · refine .inr (.inr ⟨?_, hb⟩)
            rintro rfl
            rw [hnew] at hb
            cases hb
    · rintro ⟨hall, hnodup, hmonth', hpreamble', hfind⟩
      obtain ⟨⟨hmonth, hnew⟩, hall⟩ := List.forall_mem_cons.mp hall
      rw [map_cons, nodup_cons] at hnodup
      refine ⟨_, add_eq_ok.mpr ⟨hmonth, hnew, rfl⟩, ih.mpr ⟨?_, hnodup.2, hmonth', hpreamble', ?_⟩⟩
      · intro e he
        refine ⟨(hall e he).1, (hnone _).mpr ⟨fun heq => ?_, (hall e he).2⟩⟩
        exact hnodup.1 (List.mem_map.mpr ⟨e, he, heq⟩)
      · intro k b
        rw [hfind k b, hinsert, mem_cons]
        constructor
        · rintro (⟨rfl | hb, heq⟩ | hb)
          · exact .inr (.inl ⟨rfl, heq⟩)
          · exact .inl ⟨hb, heq⟩
          · refine .inr (.inr ⟨?_, hb⟩)
            rintro rfl
            rw [hnew] at hb
            cases hb
        · rintro (⟨hb, heq⟩ | ⟨rfl, heq⟩ | ⟨-, hb⟩)
          · exact .inl ⟨.inr hb, heq⟩
          · exact .inl ⟨.inl rfl, heq⟩
          · exact .inr hb

/-! ## Valid documents -/

/-- A block that is a piece of a month file. -/
structure Block.Valid (b : Block) : Prop where
  parsed : parseBlock b.text = .ok b
  block : fence.IsBlock isHeading (splitInclusive b.text)
  lines : PieceLines (splitInclusive b.text)

structure Document.Valid (doc : Document) : Prop where
  heading : headingMonth doc.preamble = some doc.month
  quiet : fence.Quiet isHeading none (splitInclusive doc.preamble)
  lines : PieceLines (splitInclusive doc.preamble)
  entries : ∀ {k b}, doc.entries.find? k = some b →
    b.identity = k ∧ b.date.month = doc.month ∧ b.Valid

theorem parseBlock_text (h : parseBlock text = .ok entry) : entry.text = text := by
  unfold parseBlock at h
  repeat' split at h
  all_goals cases h
  all_goals rfl

theorem PieceLines.trimEnd_eq (h : PieceLines (splitInclusive text)) : trimEnd text ++ ['\n'] = text := by
  have htrimmed := h.trimmed
  rw [pieceText, flatten_splitInclusive] at htrimmed
  exact htrimmed

theorem mem_values {doc : Document} :
    b ∈ doc.entries.values ↔ ∃ k, doc.entries.find? k = some b := by
  unfold SortedMap.values
  constructor
  · intro h
    obtain ⟨row, hrow, rfl⟩ := List.mem_map.mp h
    exact ⟨row.1, SortedMap.find?_eq_some_iff.mpr hrow⟩
  · rintro ⟨k, h⟩
    exact List.mem_map.mpr ⟨(k, b), SortedMap.find?_eq_some_iff.mp h, rfl⟩

theorem mem_ordered {doc : Document} :
    b ∈ doc.ordered ↔ ∃ k, doc.entries.find? k = some b := by
  rw [Document.ordered, mem_sortBy, mem_values]

theorem Document.Valid.mem_ordered (h : doc.Valid) :
    b ∈ doc.ordered ↔ doc.entries.find? b.identity = some b := by
  rw [Devlog.mem_ordered]
  constructor
  · rintro ⟨k, hk⟩
    rw [(h.entries hk).1, hk]
  · exact fun hb => ⟨_, hb⟩

theorem Document.Valid.nodup (h : doc.Valid) : (doc.ordered.map (·.identity)).Nodup := by
  have hkeys : doc.entries.values.map (·.identity) = doc.entries.keys := by
    rw [SortedMap.values, SortedMap.keys, map_map]
    refine map_congr_left fun row hrow => ?_
    exact (h.entries (SortedMap.find?_eq_some_iff.mpr hrow)).1
  have hperm := (perm_sortBy Block.le doc.entries.values).map (·.identity)
  rw [hkeys] at hperm
  exact hperm.nodup_iff.mpr doc.entries.keys_nodup

/-! ## Rendering -/

theorem render_lines (h : doc.Valid) : splitInclusive doc.render =
    splitInclusive doc.preamble ++
      (doc.ordered.map fun e => splitInclusive e.text).flatMap fun part => ['\n'] :: part := by
  have hwhole : ∀ raw ∈ splitInclusive doc.preamble ++
      (doc.ordered.map fun e => splitInclusive e.text).flatMap (fun part => ['\n'] :: part),
      Whole raw := by
    intro raw hraw
    rcases List.mem_append.mp hraw with hraw | hraw
    · exact h.lines.whole raw hraw
    · obtain ⟨part, hpart, hraw⟩ := List.mem_flatMap.mp hraw
      obtain ⟨e, he, rfl⟩ := List.mem_map.mp hpart
      rcases List.mem_cons.mp hraw with rfl | hraw
      · exact ⟨[], not_mem_nil, rfl⟩
      · exact (h.entries (h.mem_ordered.mp he)).2.2.lines.whole raw hraw
  have htext : doc.render = (splitInclusive doc.preamble ++
      (doc.ordered.map fun e => splitInclusive e.text).flatMap (fun part => ['\n'] :: part)).flatten := by
    rw [Document.render, h.lines.trimEnd_eq, flatten_append, flatten_splitInclusive]
    congr 1
    induction doc.ordered with
    | nil => rfl
    | cons e es ih =>
      rw [flatMap_cons, map_cons, flatMap_cons, flatten_append, ← ih,
        flatten_cons, flatten_splitInclusive]
      rfl
  rw [htext, splitInclusive_flatten hwhole]

theorem headD_append {α : Type} {xs : List α} (ys : List α) (d : α) (h : xs ≠ []) :
    (xs ++ ys).headD d = xs.headD d := by
  cases xs with
  | nil => exact absurd rfl h
  | cons x xs => rfl

theorem headingMonth_ne_nil (h : headingMonth text = some month) :
    splitInclusive text ≠ [] := by
  intro hnil
  rw [headingMonth, linesOf, hnil] at h
  cases h

theorem render_pieces (h : doc.Valid) :
    blocks doc.render = .ok doc.ordered ∧ pieceText (piecesOf doc.render).1 = doc.preamble := by
  have hparts : ∀ part ∈ doc.ordered.map fun e => splitInclusive e.text,
      fence.IsBlock isHeading part ∧ fence.after none part = none ∧
        fence.Quiet isConflictMarker none part := by
    intro part hpart
    obtain ⟨e, he, rfl⟩ := List.mem_map.mp hpart
    have hvalid := (h.entries (h.mem_ordered.mp he)).2.2
    exact ⟨hvalid.block, hvalid.lines.closed, hvalid.lines.clean⟩
  obtain ⟨gap, cuts, hcut, hgap, hcuts⟩ := cut_glued h.quiet h.lines.closed
    fun part hpart => ⟨(hparts part hpart).1, (hparts part hpart).2.1⟩
  obtain ⟨hclean, hclosed⟩ := quiet_glued (by decide) h.lines.clean h.lines.closed
    fun part hpart => ⟨(hparts part hpart).2.2, (hparts part hpart).2.1⟩
  rw [← render_lines h] at hcut hclean hclosed
  have htexts : (doc.ordered.map fun e => splitInclusive e.text).map pieceText =
      doc.ordered.map (·.text) := by
    rw [map_map]
    refine map_congr_left fun e he => ?_
    have hvalid := (h.entries (h.mem_ordered.mp he)).2.2
    rw [Function.comp_apply, hvalid.lines.trimmed, flatten_splitInclusive]
  have hparsed : (doc.ordered.map (·.text)).mapM parseBlock = .ok doc.ordered := by
    rw [mapM_map]
    have hall := mapM_eq_ok_map (f := fun e : Block => parseBlock e.text) (g := id)
      fun e he => (h.entries (h.mem_ordered.mp he)).2.2.parsed
    rwa [map_id] at hall
  constructor
  · rw [blocks, (firstConflictMarker_eq_none _).mpr hclean, (unterminated_eq_false _).mpr hclosed,
      piecesOf_eq, hcut]
    rw [htexts] at hcuts
    have hmap : (cuts.map pieceText).mapM parseBlock = .ok doc.ordered := by rw [hcuts, hparsed]
    rw [mapM_map] at hmap
    exact hmap
  · rw [piecesOf_eq, hcut, pieceText, flatten_append, trimEnd_append_blank _ (blank_flatten hgap),
      flatten_splitInclusive, h.lines.trimEnd_eq]

/-- A valid document is what its rendering parses to. -/
theorem parse_render (h : doc.Valid) : Document.parse doc.render = .ok doc := by
  obtain ⟨hblocks, hpreamble⟩ := render_pieces h
  have hheading : headingMonth doc.render = some doc.month := by
    have hne := headingMonth_ne_nil h.heading
    rw [headingMonth, linesOf, render_lines h, map_append, headD_append _ _ (by simpa using hne)]
    exact h.heading
  rw [Document.parse, hheading]
  simp only [hblocks, hpreamble]
  refine foldlM_add_eq_ok.mpr ⟨fun e he => ?_, h.nodup, rfl, rfl, fun k b => ?_⟩
  · exact ⟨(h.entries (h.mem_ordered.mp he)).2.1, rfl⟩
  · constructor
    · intro hb
      have hid := (h.entries hb).1
      exact .inl ⟨h.mem_ordered.mpr (hid ▸ hb), hid⟩
    · rintro (⟨hb, rfl⟩ | hb)
      · exact h.mem_ordered.mp hb
      · cases hb

/-! ## Parsing -/

theorem splitOnce_eq_some {c : Char} {parts : Text × Text} (h : splitOnce [c] text = some parts) :
    text = parts.1 ++ c :: parts.2 := by
  induction text generalizing parts with
  | nil => cases h
  | cons d text ih =>
    rw [splitOnce] at h
    split at h
    next hstarts =>
      obtain ⟨rest, hrest⟩ := List.isPrefixOf_iff_prefix.mp hstarts
      obtain rfl := Option.some.inj h
      rw [singleton_append] at hrest
      rw [← hrest]
      rfl
    next =>
      rw [Option.map_eq_some_iff] at h
      obtain ⟨inner, hinner, rfl⟩ := h
      rw [ih hinner]
      rfl

theorem trimEnd_month {label : Text} (h : parseMonth text = some month) :
    trimEnd (label ++ text) = label ++ text := by
  rw [parseMonth, Option.bind_eq_some_iff] at h
  obtain ⟨parts, hparts, h⟩ := h
  split at h
  next hshape =>
    obtain ⟨-, hlen, -, hdigits⟩ := hshape
    have hne : parts.2 ≠ [] := by
      intro hnil
      rw [hnil] at hlen
      exact absurd hlen (by decide)
    have hlast : blank [parts.2.getLast hne] = false := by
      have hdigit := List.all_eq_true.mp hdigits _ (getLast_mem hne)
      have hspace : isWhitespace (parts.2.getLast hne) = false := by
        generalize parts.2.getLast hne = c at hdigit
        simp only [isAsciiDigit, charIn, decide_eq_true_eq] at hdigit
        have hlow : 48 ≤ c.toNat ∧ c.toNat ≤ 57 := hdigit
        simp only [isWhitespace, decide_eq_false_iff_not]
        omega
      rw [blank, all_cons, hspace, Bool.false_and]
    have htext : label ++ text = (label ++ parts.1 ++ '-' :: parts.2.dropLast) ++
        [parts.2.getLast hne] := by
      rw [splitOnce_eq_some hparts, append_assoc, append_assoc, cons_append,
        dropLast_append_getLast]
    rw [htext, trimEnd_append_of_not_blank _ hlast]
    congr 1
    exact List.rdropWhile_eq_self_iff.mpr fun _ hspace => by
      rw [getLast_singleton] at hspace
      rw [blank, all_cons, hspace] at hlast
      exact absurd hlast (by decide)
  next => cases h

theorem isPrefixOf?_eq_some {pattern rest : Text} (h : pattern.isPrefixOf? text = some rest) :
    text = pattern ++ rest := by
  induction pattern generalizing text with
  | nil =>
    cases h
    rfl
  | cons c pattern ih =>
    cases text with
    | nil => cases h
    | cons d text =>
      rw [isPrefixOf?] at h
      split at h
      next heq => rw [ih h, eq_of_beq heq, cons_append]
      next => cases h

/-- The first line of a file that names a month. -/
theorem headingMonth_eq_some (h : headingMonth contents = some month) :
    ∃ first rest, splitInclusive contents = first :: rest ∧ isHeading first = false ∧
      blank first = false ∧ trimEnd (lineOf first) = lineOf first := by
  cases hraws : splitInclusive contents with
  | nil => exact absurd hraws (headingMonth_ne_nil h)
  | cons first rest =>
    rw [headingMonth, linesOf, hraws, Option.bind_eq_some_iff] at h
    obtain ⟨label, hlabel, hmonth⟩ := h
    have hfirst : lineOf first = "# Development log - ".toList ++ label := isPrefixOf?_eq_some hlabel
    obtain ⟨tail, -, htail⟩ := lineOf_lineEnd first
    refine ⟨first, rest, rfl, ?_, ?_, ?_⟩
    · rw [isHeading, ← sectionMark_lineOf, hfirst]
      rfl
    · rw [htail, hfirst, blank_append, blank_append]
      rfl
    · rw [hfirst, trimEnd_month hmonth]

theorem headingMonth_congr {a b : Text} (h : (linesOf a).headD [] = (linesOf b).headD []) :
    headingMonth a = headingMonth b := by
  rw [headingMonth, h, headingMonth]

theorem heading_of_parseBlock (h : parseBlock text = .ok entry) :
    sectionMark.isPrefixOf (trimEnd ((linesOf text).headD [])) = true := by
  unfold parseBlock at h
  split at h
  next => cases h
  next heading hheading =>
    rw [isPrefixOf?_eq_some hheading, isPrefixOf_iff_prefix]
    exact prefix_append _ _

theorem piece_lines (hsplit : splitInclusive contents = before ++ piece ++ after)
    (hne : ∃ raw ∈ piece, blank raw = false) (hclosed : fence.after none piece = none)
    (hclean : fence.Quiet isConflictMarker none piece) :
    ∃ init last blanks, piece = init ++ last :: blanks ∧ blank last = false ∧
      (∀ raw ∈ blanks, blank raw = true) ∧
      splitInclusive (pieceText piece) = init ++ [trimEnd last ++ ['\n']] ∧
      PieceLines (init ++ [trimEnd last ++ ['\n']]) := by
  have hmem : ∀ raw ∈ piece, raw ∈ splitInclusive contents := by
    intro raw hraw
    rw [hsplit]
    exact mem_append_left _ (mem_append_right _ hraw)
  refine pieceText_lines (fun raw hraw => whole_trimEnd (hmem raw hraw)) ?_ hne hclosed hclean
  · rintro init last rest rfl raw hraw
    have hcut : splitInclusive contents = (before ++ init) ++ (last :: (rest ++ after)) := by
      rw [hsplit]
      simp
    exact whole_of_before hcut (cons_ne_nil _ _) raw (mem_append_right _ hraw)

theorem valid_of_parseBlock
    (hsplit : splitInclusive contents = before ++ piece ++ after) (hblock : fence.IsBlock isHeading piece)
    (hclosed : fence.after none piece = none) (hclean : fence.Quiet isConflictMarker none piece)
    (hparse : parseBlock (pieceText piece) = .ok entry) : entry.Valid := by
  obtain ⟨x, xs, rfl, hdelim, hx, hxs⟩ := hblock.shape
  obtain ⟨init, last, blanks, hpiece, -, hblanks, hlines, hpieceLines⟩ := piece_lines hsplit
    ⟨x, mem_cons_self, not_blank_of_section hx⟩ hclosed hclean
  have htext := parseBlock_text hparse
  rw [← htext] at hlines hparse
  refine ⟨hparse, ?_, hlines ▸ hpieceLines⟩
  rw [hlines]
  cases init with
  | nil =>
    obtain ⟨rfl, -⟩ := List.cons_eq_cons.mp hpiece
    have hheading := heading_of_parseBlock hparse
    rw [linesOf, hlines, nil_append, map_singleton, lineOf_trimEnd, headD_cons,
      trimEnd_trimEnd] at hheading
    refine ⟨_, [], rfl, ?_, ?_, Fence.quiet_nil⟩
    · rw [delim_trimEnd, hdelim]
    · rw [isHeading, isPrefixOf_append_newline (by decide), hheading]
  | cons y init =>
    obtain ⟨rfl, rfl⟩ := List.cons_eq_cons.mp hpiece
    exact ⟨x, _, rfl, hdelim, hx, quiet_trimmed heading_of_trimEnd hxs⟩

theorem valid_of_blocks (h : blocks contents = .ok entries) (hmem : entry ∈ entries) : entry.Valid := by
  unfold blocks at h
  split at h
  next => cases h
  next hmarkers =>
    split at h
    next => cases h
    next hfences =>
      have hclean := (firstConflictMarker_eq_none _).mp hmarkers
      have hclosed := (unterminated_eq_false _).mp (Bool.eq_false_of_not_eq_true hfences)
      rw [piecesOf_eq] at h
      have hflat := @Fence.cut_flatten _ _ fence isHeading none (splitInclusive contents)
      have hheadClosed := Fence.closed_head (p := isHeading) hclosed
      have hcutsClosed := Fence.closed_blocks (p := isHeading) hclosed
      obtain ⟨piece, hpiece, hparse⟩ := mem_of_mapM_eq_ok h hmem
      have hblock : fence.IsBlock isHeading piece := Fence.cut_blocks piece hpiece
      rw [← hflat, Fence.quiet_append, hheadClosed] at hclean
      have hpieceClean := Fence.quiet_flatten hcutsClosed hclean.2 piece hpiece
      obtain ⟨before, after, hcuts⟩ := List.append_of_mem hpiece
      have hsplit : splitInclusive contents =
          ((fence.cut isHeading none (splitInclusive contents)).1 ++ before.flatten) ++ piece ++
            after.flatten := by
        conv_lhs => rw [← hflat, hcuts]
        simp
      exact valid_of_parseBlock hsplit hblock (hcutsClosed piece hpiece) hpieceClean hparse

theorem valid_of_parse (h : Document.parse contents = .ok doc) : doc.Valid := by
  unfold Document.parse at h
  split at h
  next => cases h
  next month hmonth =>
    obtain ⟨entries, hentries, hadd⟩ := bind_eq_ok.mp h
    obtain ⟨hall, -, hdocMonth, hdocPreamble, hfind⟩ := foldlM_add_eq_ok.mp hadd
    have hvalid : ∀ b ∈ entries, b.Valid := fun b => valid_of_blocks hentries
    unfold blocks at hentries
    split at hentries
    next => cases hentries
    next hmarkers =>
      split at hentries
      next => cases hentries
      next hfences =>
        have hclean := (firstConflictMarker_eq_none _).mp hmarkers
        have hclosed := (unterminated_eq_false _).mp (Bool.eq_false_of_not_eq_true hfences)
        obtain ⟨first, rest, hraws, hfirst, hfirstNot, hfirstTrim⟩ := headingMonth_eq_some hmonth
        rw [piecesOf_eq] at hdocPreamble
        have hflat := @Fence.cut_flatten _ _ fence isHeading none (splitInclusive contents)
        have hheadClosed := Fence.closed_head (p := isHeading) hclosed
        have hheadQuiet : fence.Quiet isHeading none
            (fence.cut isHeading none (splitInclusive contents)).1 := Fence.cut_quiet
        have hheadFirst : ∃ more, (fence.cut isHeading none (splitInclusive contents)).1 =
            first :: more := by
          rw [hraws, Fence.cut, hfirst, Bool.and_false]
          exact ⟨_, rfl⟩
        generalize hcut : fence.cut isHeading none (splitInclusive contents) = cut at *
        obtain ⟨head, cuts⟩ := cut
        obtain ⟨more, rfl⟩ := hheadFirst
        rw [← hflat, Fence.quiet_append, hheadClosed] at hclean
        have hsplit : splitInclusive contents = [] ++ (first :: more) ++ cuts.flatten := hflat.symm
        obtain ⟨init, last, blanks, hpiece, -, hblanks, hlines, hpieceLines⟩ := piece_lines hsplit
          ⟨first, mem_cons_self, hfirstNot⟩ hheadClosed hclean.1
        have hpreamble : doc.preamble = pieceText (first :: more) := hdocPreamble
        rw [← hpreamble] at hlines
        refine ⟨?_, ?_, hlines ▸ hpieceLines, fun {k b} hb => ?_⟩
        · rw [hdocMonth, ← hmonth]
          refine headingMonth_congr ?_
          rw [linesOf, linesOf, hlines, hraws]
          cases init with
          | nil =>
            obtain ⟨rfl, -⟩ := List.cons_eq_cons.mp hpiece
            rw [nil_append, map_singleton, lineOf_trimEnd, ← trimEnd_lineOf, hfirstTrim]
            rfl
          | cons y init =>
            obtain ⟨rfl, -⟩ := List.cons_eq_cons.mp hpiece
            rfl
        · rw [hlines]
          rw [hpiece] at hheadQuiet
          exact quiet_trimmed heading_of_trimEnd hheadQuiet
        · rcases (hfind k b).mp hb with ⟨hmem, rfl⟩ | hnone
          · exact ⟨rfl, (hall b hmem).1.trans hdocMonth.symm, hvalid b hmem⟩
          · cases hnone

theorem valid_empty (month : Month) : (Document.empty month).Valid := by
  have hnewline : '\n' ∉ month.heading := by
    unfold Month.heading
    simp only [mem_append, not_or]
    refine ⟨by decide, fun h => ?_⟩
    rcases Month.text_chars h with h | h <;> exact absurd h (by decide)
  have hlines : splitInclusive (month.heading ++ ['\n']) = [month.heading ++ ['\n']] :=
    splitInclusive_body hnewline []
  have htrim : trimEnd month.heading = month.heading := by
    unfold Month.heading
    exact trimEnd_month (parseMonth_text month)
  have hpreamble : (Document.empty month).preamble = month.heading ++ ['\n'] := rfl
  have hheading : month.heading = '#' :: (" Development log - ".toList ++ month.text) := rfl
  have hdelim : fenceDelimiter (month.heading ++ ['\n']) = none := by
    rw [hheading]
    rfl
  have hnext : fence.next none (month.heading ++ ['\n']) = none := hdelim
  have hline : lineOf (month.heading ++ ['\n']) = month.heading := by
    conv_lhs => rw [← htrim]
    rw [lineOf_trimEnd, htrim]
  refine ⟨?_, ?_, ?_, fun {k b} h => ?_⟩
  · have hstrip : ∀ rest, "# Development log - ".toList.isPrefixOf?
        ("# Development log - ".toList ++ rest) = some rest := fun rest => rfl
    have hlabel : "# Development log - ".toList.isPrefixOf? month.heading = some month.text :=
      hstrip month.text
    rw [hpreamble, headingMonth, linesOf, hlines, map_singleton, hline, headD_cons, hlabel,
      Option.bind_some, parseMonth_text]
    rfl
  · rw [hpreamble, hlines, Fence.quiet_cons]
    refine ⟨?_, Fence.quiet_nil⟩
    rw [hheading, isHeading]
    exact Bool.and_false _
  · rw [hpreamble, hlines]
    refine ⟨fun raw hraw => ?_, ?_, ?_, ?_⟩
    · rw [List.mem_singleton.mp hraw]
      exact ⟨month.heading, hnewline, rfl⟩
    · rw [Fence.after_cons, hnext, Fence.after_nil]
    · rw [Fence.quiet_cons]
      refine ⟨?_, Fence.quiet_nil⟩
      rw [hheading]
      exact Bool.and_false _
    · rw [pieceText, flatten_singleton, trimEnd_newline, htrim]
  · cases h

theorem parse_render_parse (h : Document.parse contents = .ok doc) :
    Document.parse doc.render = .ok doc := parse_render (valid_of_parse h)

end NilsCli.Devlog
