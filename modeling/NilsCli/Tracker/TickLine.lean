import NilsCli.Lib.Lines
import NilsCli.Tracker.Edit
import NilsCli.Tracker.RowLines

/-!
# Ticking one row line

A row line is a mark, an id, blanks, a text, blanks and a dependency clause (`RowShape`).
-/

namespace NilsCli.Tracker

open Lib List

variable {c : Char} {inner next trail : Line} {after : List Line} {p : Char → Bool}
  {spans : RowSpans}

variable {depth : Nat} {xs rest head mark line id tail lead entry : Line} {done : Bool}
  {row : Row} {pr : Option Line}

/-! ## Notes groups -/

/-- The depth one parenthesis further to the left. -/
def stepDepth (depth : Nat) (c : Char) : Nat :=
  if c = ')' then depth + 1 else if c = '(' then depth - 1 else depth

def unclosed (depth : Nat) : Line → Option Nat
  | [] => some depth
  | c :: cs => if stepDepth depth c = 0 then none else unclosed (stepDepth depth c) cs

theorem openingFrom_cons (depth : Nat) (behind : Line) (c : Char) (before : Line) :
    openingFrom depth behind (c :: before) =
      if stepDepth depth c = 0 then some (before.reverse, behind)
      else openingFrom (stepDepth depth c) (c :: behind) before := rfl

theorem stepDepth_eq_zero (hdepth : 0 < depth)
    (h : stepDepth depth c = 0) : c = '(' ∧ depth = 1 := by
  unfold stepDepth at h
  split at h
  · omega
  · split at h
    next hopen => exact ⟨hopen, by omega⟩
    next => omega

theorem unclosed_append (depth : Nat) (xs ys : Line) :
    unclosed depth (xs ++ ys) = (unclosed depth xs).bind fun depth => unclosed depth ys := by
  induction xs generalizing depth with
  | nil => rfl
  | cons c xs ih =>
    rw [cons_append, unclosed, unclosed]
    split
    · rfl
    · exact ih (stepDepth depth c)

theorem unclosed_plain (hdepth : 0 < depth)
    (h : ∀ c ∈ xs, c ≠ '(' ∧ c ≠ ')') : unclosed depth xs = some depth := by
  induction xs with
  | nil => rfl
  | cons c xs ih =>
    rw [forall_mem_cons] at h
    have hstep : stepDepth depth c = depth := by rw [stepDepth, if_neg h.1.2, if_neg h.1.1]
    rw [unclosed, hstep, if_neg (by omega)]
    exact ih h.2

theorem openingFrom_append {depth' : Nat} (h : unclosed depth xs = some depth')
    (behind rest : Line) :
    openingFrom depth behind (xs ++ rest) = openingFrom depth' (xs.reverse ++ behind) rest := by
  induction xs generalizing depth behind with
  | nil =>
    cases h
    rfl
  | cons c xs ih =>
    rw [unclosed] at h
    rw [cons_append, openingFrom_cons]
    split at h
    next => cases h
    next hpos =>
      rw [if_neg hpos, ih h]
      simp

theorem exists_opening {behind text front : Line} (hdepth : 0 < depth)
    (h : openingFrom depth behind text = some (front, inner)) :
    ∃ xs, text = xs ++ '(' :: front.reverse ∧ unclosed depth xs = some 1 ∧
      inner = xs.reverse ++ behind := by
  induction text generalizing depth behind with
  | nil => cases h
  | cons c text ih =>
    rw [openingFrom_cons] at h
    split at h
    next hzero =>
      cases h
      obtain ⟨rfl, rfl⟩ := stepDepth_eq_zero hdepth hzero
      exact ⟨[], by simp, rfl, rfl⟩
    next hpos =>
      obtain ⟨xs, rfl, hxs, rfl⟩ := ih (by omega) h
      refine ⟨c :: xs, rfl, ?_, by simp⟩
      rw [unclosed, if_neg hpos]
      exact hxs

theorem notesGroup_iff {text front : Line} : notesGroup text = some (front, inner) ↔
    text = front ++ '(' :: (inner ++ [')']) ∧ unclosed 1 inner.reverse = some 1 ∧
      front.getLast? = some ' ' ∧ trim inner ≠ [] := by
  unfold notesGroup
  constructor
  · intro h
    split at h
    next hlast =>
      obtain ⟨init, rfl⟩ := getLast?_eq_some_iff.mp hlast
      rw [reverse_append, reverse_singleton, singleton_append, openingFrom_cons,
        if_neg (by decide)] at h
      split at h
      next => cases h
      next front' behind hopening =>
        obtain ⟨xs, hinit, hxs, rfl⟩ := exists_opening (by decide) hopening
        simp only [dropLast_concat] at h
        split at h
        next hgroup =>
          cases h
          have hinit' := congrArg reverse hinit
          rw [reverse_reverse] at hinit'
          refine ⟨by simp [hinit'], by simpa using show unclosed 1 xs = some 1 from hxs, hgroup⟩
        next => cases h
    next => cases h
  · rintro ⟨rfl, hinner, hfront⟩
    have hopening : openingFrom 0 [] (front ++ '(' :: (inner ++ [')'])).reverse =
        some (front, inner ++ [')']) := by
      have hreverse : (front ++ '(' :: (inner ++ [')'])).reverse =
          ')' :: (inner.reverse ++ '(' :: front.reverse) := by simp
      have hdepth : stepDepth 0 ')' = 1 := rfl
      have hzero : stepDepth 1 '(' = 0 := rfl
      rw [hreverse, openingFrom_cons, hdepth, if_neg (by omega), openingFrom_append hinner,
        openingFrom_cons, if_pos hzero]
      simp
    have hlast : (front ++ '(' :: (inner ++ [')'])).getLast? = some ')' := by
      rw [← cons_append, ← append_assoc, getLast?_concat]
    rw [if_pos hlast, hopening]
    dsimp only
    rw [dropLast_concat, if_pos hfront]

/-! ## Dependency clauses -/

def startsClause (text : Line) : Bool := (dropPrefix? text afterMark).any endsMark

theorem dropPrefix?_eq_some {text start : Line} :
    dropPrefix? text start = some rest ↔ text = start ++ rest := by
  unfold dropPrefix?
  constructor
  · intro h
    split at h
    next hprefix =>
      obtain ⟨rest', rfl⟩ := List.isPrefixOf_iff_prefix.mp hprefix
      simpa using h
    next => cases h
  · rintro rfl
    rw [if_pos (List.isPrefixOf_iff_prefix.mpr (prefix_append _ _)), drop_left]

theorem startsClause_iff {text : Line} :
    startsClause text = true ↔ ∃ next, text = afterMark ++ next ∧ endsMark next = true := by
  rw [startsClause, Option.any_eq_true]
  simp only [dropPrefix?_eq_some]

theorem splitClause_cons (c : Char) (cs : Line) : splitClause (c :: cs) =
    match splitClause cs with
    | some (head, next) => some (c :: head, next)
    | none => if startsClause (c :: cs) then some ([], (c :: cs).drop afterMark.length) else none := by
  rw [splitClause]
  cases splitClause cs with
  | some parts => rfl
  | none =>
    dsimp only
    cases hdrop : dropPrefix? (c :: cs) afterMark with
    | none => rw [startsClause, hdrop, if_neg (by simp)]
    | some next =>
      rw [startsClause, hdrop, Option.any_some, dropPrefix?_eq_some.mp hdrop, drop_left]

theorem splitClause_append {text : Line} (h : splitClause text = some (head, next))
    (front : Line) : splitClause (front ++ text) = some (front ++ head, next) := by
  induction front with
  | nil => exact h
  | cons c front ih => rw [cons_append, splitClause_cons, ih]; rfl

theorem exists_splitClause {text : Line} (h : splitClause text = some (head, next)) :
    text = head ++ (afterMark ++ next) ∧ splitClause (afterMark ++ next) = some ([], next) := by
  induction text generalizing head with
  | nil => cases h
  | cons c cs ih =>
    have h' := h
    rw [splitClause_cons] at h
    split at h
    next head' next' hrest =>
      cases h
      obtain ⟨heq, hnext⟩ := ih hrest
      exact ⟨by rw [cons_append, ← heq], hnext⟩
    next =>
      split at h
      next hstarts =>
        obtain ⟨next', heq, -⟩ := startsClause_iff.mp hstarts
        have hdrop : next = next' := by
          rw [heq, drop_left] at h
          cases h
          rfl
        cases h
        rw [hdrop, ← heq]
        refine ⟨rfl, ?_⟩
        rw [h']
        simp [heq]
      next => cases h

theorem splitClause_eq_none {text : Line} : splitClause text = none ↔
    ∀ front rest, text = front ++ rest → startsClause rest = false := by
  induction text with
  | nil =>
    refine ⟨fun _ front rest h => ?_, fun _ => rfl⟩
    obtain ⟨-, rfl⟩ := List.append_eq_nil_iff.mp h.symm
    rfl
  | cons c cs ih =>
    rw [splitClause_cons]
    constructor
    · intro h front rest heq
      cases hrest : splitClause cs with
      | some parts => simp [hrest] at h
      | none =>
        rw [hrest] at h
        rcases front with _ | ⟨d, front⟩
        · rw [← show c :: cs = rest from heq]
          by_contra hstarts
          simp [hstarts] at h
        · exact ih.mp hrest front rest (List.cons.inj heq).2
    · intro h
      rw [ih.mpr fun front rest heq => h (c :: front) rest (by rw [heq]; rfl)]
      exact if_neg (by simp [h [] (c :: cs) rfl])

def KeepsMarks (added behind : Line) : Prop :=
  (∃ rest, added = ',' :: rest) ∨ behind = [] ∧ ∃ rest, added = ' ' :: '(' :: rest

theorem startsClause_insert {front added behind : Line} (hadded : KeepsMarks added behind)
    (h : startsClause (front ++ behind) = false) :
    startsClause (front ++ (added ++ behind)) = false := by
  by_contra hstarts
  obtain ⟨next, heq, hends⟩ := startsClause_iff.mp (by simpa using hstarts)
  rcases List.append_eq_append_iff.mp heq with ⟨mark, hmark, hadded'⟩ | ⟨rest, rfl, hnext⟩
  · -- the mark goes on behind the insertion point
    have hsuffix : mark <:+ afterMark := ⟨front, hmark.symm⟩
    have hmem : ∀ c ∈ mark, c ≠ ',' ∧ c ≠ '(' := by
      intro c hc
      have hall : ∀ c ∈ afterMark, c ≠ ',' ∧ c ≠ '(' := by simp [afterMark]
      exact hall c (hsuffix.mem hc)
    rcases mark with _ | ⟨c, mark⟩
    · rw [append_nil] at hmark
      rw [nil_append] at hadded'
      rcases hadded with ⟨rest, rfl⟩ | ⟨rfl, rest, rfl⟩
      · rw [← hadded'] at hends
        simp [endsMark] at hends
      · rw [append_nil, ← hmark] at h
        exact absurd h (by decide)
    · rcases hadded with ⟨rest, rfl⟩ | ⟨rfl, rest, rfl⟩
      · obtain ⟨rfl, -⟩ := List.cons.inj hadded'
        exact (hmem ',' (by simp)).1 rfl
      · obtain ⟨rfl, hrest⟩ := List.cons.inj hadded'
        rcases mark with _ | ⟨c, mark⟩
        · -- the mark does not end with a space
          have := congrArg getLast? hmark
          rw [getLast?_concat] at this
          exact absurd this (by decide)
        · obtain ⟨rfl, -⟩ := List.cons.inj hrest
          exact (hmem '(' (by simp)).2 rfl
  · have hends' : endsMark (rest ++ behind) = true := by
      rcases rest with _ | ⟨c, rest⟩
      · rcases hadded with ⟨rest, rfl⟩ | ⟨rfl, rest, rfl⟩
        · rw [hnext] at hends
          simp [endsMark] at hends
        · rfl
      · rw [hnext] at hends
        exact hends
    rw [startsClause_iff.mpr ⟨rest ++ behind, append_assoc _ _ _, hends'⟩] at h
    cases h

theorem startsClause_eq_false (h : c ≠ ' ' ∨ rest.head?.any (· ≠ Char.ofNat 0xB7) = true) :
    startsClause (c :: rest) = false := by
  by_contra hstarts
  obtain ⟨next, heq, -⟩ := startsClause_iff.mp (by simpa using hstarts)
  obtain ⟨rfl, rfl⟩ := List.cons.inj heq
  rcases h with h | h
  · exact h rfl
  · simp at h

theorem splitClause_insert {front added behind : Line} (hadded : KeepsMarks added behind)
    (hdot : Char.ofNat 0xB7 ∉ added) (hspace : added.getLast? ≠ some ' ')
    (h : splitClause (front ++ behind) = none) :
    splitClause (front ++ (added ++ behind)) = none := by
  have hnone := splitClause_eq_none.mp h
  -- at a place inside the insertion
  have hinside : ∀ pre rest, added = pre ++ rest → startsClause (rest ++ behind) = false := by
    rintro pre (_ | ⟨c, _ | ⟨d, rest⟩⟩) rfl
    · exact hnone front behind rfl
    · exact startsClause_eq_false (.inl fun hc => hspace (by simp [hc]))
    · refine startsClause_eq_false (.inr ?_)
      have hd : d ≠ Char.ofNat 0xB7 := fun hd => hdot (by simp [hd])
      simpa using hd
  refine splitClause_eq_none.mpr fun pre rest heq => ?_
  rcases List.append_eq_append_iff.mp heq with ⟨pre', rfl, heq'⟩ | ⟨rest', rfl, rfl⟩
  · rcases List.append_eq_append_iff.mp heq' with ⟨pre'', rfl, rfl⟩ | ⟨rest', hsplit, rfl⟩
    · exact hnone (front ++ pre'') rest (by rw [append_assoc])
    · exact hinside pre' rest' hsplit
  · exact startsClause_insert hadded (hnone pre _ (append_assoc _ _ _))

/-! ## The shape of a row line -/

/-- A row mark with its blank. -/
def IsMark (mark : Line) (done : Bool) : Prop :=
  done = false ∧ mark = "- [ ] ".toList ∨
    done = true ∧ (mark = "- [x] ".toList ∨ mark = "- [X] ".toList)

theorem IsMark.length (h : IsMark mark done) : mark.length = 6 := by
  rcases h with ⟨-, rfl⟩ | ⟨-, rfl | rfl⟩ <;> rfl

theorem markDone_iff :
    markDone line = some done ↔ ∃ mark rest, IsMark mark done ∧ line = mark ++ rest := by
  constructor
  · intro h
    unfold markDone at h
    split at h
    next hopen =>
      cases h
      obtain ⟨rest, rfl⟩ := List.isPrefixOf_iff_prefix.mp hopen
      exact ⟨_, rest, .inl ⟨rfl, rfl⟩, rfl⟩
    next =>
      split at h
      next hdone =>
        cases h
        rcases Bool.or_eq_true_iff.mp hdone with hdone | hdone
        · obtain ⟨rest, rfl⟩ := List.isPrefixOf_iff_prefix.mp hdone
          exact ⟨_, rest, .inr ⟨rfl, .inl rfl⟩, rfl⟩
        · obtain ⟨rest, rfl⟩ := List.isPrefixOf_iff_prefix.mp hdone
          exact ⟨_, rest, .inr ⟨rfl, .inr rfl⟩, rfl⟩
      next => cases h
  · rintro ⟨mark, rest, hmark, rfl⟩
    rcases hmark with ⟨rfl, rfl⟩ | ⟨rfl, rfl | rfl⟩ <;> rfl

theorem splitStars_eq_some {text : Line} (h : splitStars text = some (id, tail)) :
    text = id ++ '*' :: '*' :: tail := by
  fun_induction splitStars text generalizing id with
  | case1 cs =>
    cases h
    rfl
  | case2 c cs _ ih =>
    obtain ⟨⟨a, b⟩, hsplit, heq⟩ := Option.map_eq_some_iff.mp h
    cases heq
    rw [ih hsplit, cons_append]
  | case3 => cases h

theorem splitStars_append (hid : '*' ∉ id) (tail : Line) :
    splitStars (id ++ '*' :: '*' :: tail) = some (id, tail) := by
  induction id with
  | nil => rfl
  | cons c id ih =>
    rw [mem_cons, not_or] at hid
    rw [cons_append, splitStars, ih hid.2]
    · rfl
    · rintro cs rfl
      exact absurd rfl hid.1

theorem rowPrefix_eq_some :
    rowPrefix line = some (done, id, tail) ↔ ∃ mark, IsMark mark done ∧ isId id = true ∧
      line = mark ++ ("**".toList ++ (id ++ ("**".toList ++ tail))) := by
  rw [rowPrefix_iff, markDone_iff]
  constructor
  · rintro ⟨⟨mark, rest, hmark, rfl⟩, rest', hrest, hsplit, hid⟩
    rw [drop_left' hmark.length, dropPrefix?_eq_some] at hrest
    refine ⟨mark, hmark, hid, ?_⟩
    rw [hrest, splitStars_eq_some hsplit]
    rfl
  · rintro ⟨mark, hmark, hid, rfl⟩
    refine ⟨⟨mark, _, hmark, rfl⟩, id ++ ("**".toList ++ tail), ?_, splitStars_append ?_ tail, hid⟩
    · rw [drop_left' hmark.length, dropPrefix?_eq_some]
    · intro hmem
      exact absurd ((isId_iff hid).2 '*' hmem) (by decide)

def HasClause (head clause : Line) (after : List Line) : Prop :=
  clause = [] ∧ after = [] ∧ splitClause head = none ∨
    ∃ next, clause = afterMark ++ next ∧ splitClause clause = some ([], next) ∧
      parseEntries [] ((trim next).splitOn ',') = some after

theorem clauseOf_iff :
    clauseOf tail = some (head, after) ↔ ∃ clause, tail = head ++ clause ∧
      HasClause head clause after := by
  unfold clauseOf
  constructor
  · intro h
    split at h
    next hnone =>
      cases h
      exact ⟨[], by simp, .inl ⟨rfl, rfl, hnone⟩⟩
    next head' next hsplit =>
      obtain ⟨ids, hids, heq⟩ := Option.map_eq_some_iff.mp h
      cases heq
      obtain ⟨heq, hnext⟩ := exists_splitClause hsplit
      exact ⟨_, heq, .inr ⟨next, rfl, hnext, hids⟩⟩
  · rintro ⟨clause, rfl, ⟨rfl, rfl, hnone⟩ | ⟨next, -, hsplit, hids⟩⟩
    · rw [append_nil, hnone]
    · have := splitClause_append hsplit head
      rw [append_nil] at this
      rw [this]
      dsimp only
      rw [hids]
      rfl

/-- Every character is a blank. -/
def IsBlanks (text : Line) : Prop := ∀ c ∈ text, isBlank c = true

theorem exists_trim (text : Line) : ∃ lead trail, IsBlanks lead ∧ IsBlanks trail ∧
    text = lead ++ (trim text ++ trail) ∧
    lead.length = text.length - (text.dropWhile isBlank).length := by
  refine ⟨text.takeWhile isBlank, (text.dropWhile isBlank).rtakeWhile isBlank, fun c hc =>
    mem_takeWhile_imp hc, fun c hc => mem_rtakeWhile_imp hc, ?_, ?_⟩
  · rw [trim, rdropWhile_append_rtakeWhile, takeWhile_append_dropWhile]
  · have := congrArg List.length (takeWhile_append_dropWhile (p := isBlank) (l := text))
    rw [length_append] at this
    omega

/-- A text without blanks at its ends. -/
structure IsTrimmed (text : Line) : Prop where
  head : ∀ c ∈ text.head?, isBlank c = false
  last : ∀ c ∈ text.getLast?, isBlank c = false

theorem isTrimmed_trim (text : Line) : IsTrimmed (trim text) := by
  unfold trim
  constructor
  · intro c hc
    obtain ⟨rest, hrest⟩ := rdropWhile_prefix isBlank (text.dropWhile isBlank)
    have hhead : (text.dropWhile isBlank).head? = some c := by
      rw [← hrest, List.head?_append, Option.mem_def.mp hc]
      rfl
    have := List.head?_dropWhile_not isBlank text
    rw [hhead] at this
    simpa using this
  · intro c hc
    have hne : (text.dropWhile isBlank).rdropWhile isBlank ≠ [] := by
      rintro hnil
      simp [hnil] at hc
    have := rdropWhile_last_not isBlank (text.dropWhile isBlank) hne
    rw [getLast?_eq_some_getLast hne, Option.mem_some_iff] at hc
    simpa [hc] using this

theorem rdropWhile_append {text : Line} (htrail : ∀ c ∈ trail, p c = true)
    (hlast : ∀ c ∈ text.getLast?, p c = false) : (text ++ trail).rdropWhile p = text := by
  have hdrop : text.reverse.dropWhile p = text.reverse := by
    cases hreverse : text.reverse with
    | nil => rfl
    | cons c rest =>
      have := hlast c (by rw [← List.head?_reverse, hreverse]; rfl)
      rw [dropWhile_cons_of_neg (by simp [this])]
  rw [rdropWhile, reverse_append,
    dropWhile_append_of_pos fun c hc => htrail c (List.mem_reverse.mp hc), hdrop,
    reverse_reverse]

theorem dropWhile_append {text : Line} (hlead : ∀ c ∈ lead, p c = true)
    (hhead : ∀ c ∈ text.head?, p c = false) : (lead ++ text).dropWhile p = text := by
  rw [dropWhile_append_of_pos hlead]
  cases text with
  | nil => rfl
  | cons c rest => rw [dropWhile_cons_of_neg (by simp [hhead c rfl])]

theorem trim_blanks {lead text trail : Line} (hlead : IsBlanks lead) (htrail : IsBlanks trail)
    (htext : IsTrimmed text) (hne : text ≠ []) :
    (lead ++ (text ++ trail)).dropWhile isBlank = text ++ trail ∧
      trim (lead ++ (text ++ trail)) = text := by
  have hhead : ∀ c ∈ (text ++ trail).head?, isBlank c = false := by
    rw [List.head?_append_of_ne_nil _ hne]
    exact htext.head
  have hdrop := dropWhile_append hlead hhead
  exact ⟨hdrop, by rw [trim, hdrop, rdropWhile_append htrail htext.last]⟩

theorem trim_self {text : Line} (h : IsTrimmed text) : trim text = text := by
  by_cases hne : text = []
  · subst hne
    rfl
  · have hnil : IsBlanks [] := by simp [IsBlanks]
    have := (trim_blanks hnil hnil h hne).2
    rwa [nil_append, append_nil] at this

/-- What stands in front of the text of a row. -/
def rowStart (mark id lead : Line) : Line :=
  mark ++ ("**".toList ++ (id ++ ("**".toList ++ lead)))

/-- The parts of a row line that is read as a row. -/
structure RowShape (mark id lead text trail clause : Line) (done : Bool) (after : List Line) :
    Prop where
  isMark : IsMark mark done
  isId : isId id = true
  blank : lead.head? = some ' '
  leads : IsBlanks lead
  trails : IsBlanks trail
  trimmed : IsTrimmed text
  titled : titleOf (frontOf text) ≠ []
  clause : HasClause (lead ++ (text ++ trail)) clause after

theorem ne_nil_of_titled {text : Line} (h : titleOf (frontOf text) ≠ []) : text ≠ [] := by
  rintro rfl
  exact h rfl

theorem parseRow_iff_shape :
    parseRow line = some (row, spans) ↔ ∃ mark id lead text trail clause done after,
      RowShape mark id lead text trail clause done after ∧
        line = rowStart mark id lead ++ (text ++ (trail ++ clause)) ∧
        row = rowWith done id text after ∧ spans = spansAt (rowStart mark id lead).length text := by
  rw [parseRow_iff]
  constructor
  · rintro ⟨done, id, tail, head, after, ⟨hmarked, hblank, hclause, htitled⟩, rfl, rfl⟩
    obtain ⟨mark, hmark, hid, rfl⟩ := rowPrefix_eq_some.mp hmarked
    obtain ⟨clause, rfl, hclauseAt⟩ := clauseOf_iff.mp hclause
    obtain ⟨lead, trail, hlead, htrail, heq, hlength⟩ := exists_trim head
    have htrimmed := isTrimmed_trim head
    have hne := ne_nil_of_titled htitled
    have hlead' : lead.head? = some ' ' := by
      rcases lead with _ | ⟨c, lead⟩
      · rw [heq, nil_append, append_assoc, List.head?_append_of_ne_nil _ hne] at hblank
        exact absurd (htrimmed.head ' ' hblank) (by decide)
      · rw [heq] at hblank
        exact hblank
    refine ⟨mark, id, lead, trim head, trail, clause, done, after,
      ⟨hmark, hid, hlead', hlead, htrail, htrimmed, htitled, by rw [← heq]; exact hclauseAt⟩, ?_,
      rfl, ?_⟩
    · rw [rowStart]
      conv_lhs => rw [heq]
      simp only [append_assoc]
    · rw [← hlength, rowStart]
      congr 1
      simp only [length_append]
      omega
  · rintro ⟨mark, id, lead, text, trail, clause, done, after, hshape, rfl, rfl, rfl⟩
    have hne := ne_nil_of_titled hshape.titled
    obtain ⟨hdrop, htrim⟩ := trim_blanks hshape.leads hshape.trails hshape.trimmed hne
    refine ⟨done, id, lead ++ (text ++ trail) ++ clause, lead ++ (text ++ trail), after,
      ⟨rowPrefix_eq_some.mpr ⟨mark, hshape.isMark, hshape.isId, ?_⟩, ?_,
        clauseOf_iff.mpr ⟨clause, rfl, hshape.clause⟩, by rw [htrim]; exact hshape.titled⟩,
      by rw [htrim], ?_⟩
    · simp [rowStart]
    · rw [append_assoc, List.head?_append, hshape.blank]
      rfl
    · rw [htrim, hdrop, rowStart]
      congr 1
      simp only [length_append]
      omega

/-! ## The recorded entry -/

/-- A text that the grammar gives no meaning to. -/
structure IsEntry (entry : Line) : Prop where
  head : entry.head? = some 'P'
  plain : ∀ c ∈ entry, c ≠ '(' ∧ c ≠ ')' ∧ c ≠ ',' ∧ c ≠ Char.ofNat 0xB7 ∧ c ≠ '\n'
  last : ∀ c ∈ entry.getLast?, isBlank c = false

theorem isEntry_prEntry {pr : Line} (h : prIsRecordable pr = true) : IsEntry (prEntry pr) := by
  unfold prIsRecordable at h
  simp only [Bool.and_eq_true, decide_eq_true_eq, Bool.not_eq_true', any_eq_false,
    Bool.or_eq_true, not_or] at h
  obtain ⟨hne, hall⟩ := h
  have hspace : ∀ c ∈ pr, ∀ d, isWhitespace d = true → c ≠ d := by
    rintro c hc d hd rfl
    exact (hall c hc).1.1.1.1.1 hd
  refine ⟨rfl, fun c hc => ?_, fun c hc => ?_⟩
  · rcases List.mem_append.mp hc with hc | hc
    · have hPR : ∀ c ∈ "PR ".toList, c ≠ '(' ∧ c ≠ ')' ∧ c ≠ ',' ∧ c ≠ Char.ofNat 0xB7 ∧
          c ≠ '\n' := by simp
      exact hPR c hc
    · obtain ⟨⟨⟨⟨-, hopen⟩, hclose⟩, hcomma⟩, hdot⟩ := hall c hc
      refine ⟨hopen, hclose, hcomma, ?_, hspace c hc '\n' (by decide)⟩
      rintro rfl
      exact hdot rfl
  · rw [prEntry, getLast?_append_of_ne_nil _ hne] at hc
    have hmem := mem_of_getLast? hc
    simp [isBlank, hspace c hmem ' ' (by decide), hspace c hmem '\t' (by decide)]

theorem IsEntry.ne_nil (h : IsEntry entry) : entry ≠ [] := by
  rintro rfl
  cases h.head

theorem IsEntry.isTrimmed (h : IsEntry entry) : IsTrimmed entry := by
  refine ⟨fun c hc => ?_, h.last⟩
  rw [h.head] at hc
  cases hc
  rfl

/-- The text of a row with the entry in its notes. -/
def notedText (entry text : Line) : Line :=
  match notesGroup text with
  | some (front, inner) =>
    if names_ inner entry then text
    else front ++ '(' :: (inner.rdropWhile isBlank ++
      (", ".toList ++ entry ++ (inner.rtakeWhile isBlank ++ [')'])))
  | none => text ++ (" (".toList ++ (entry ++ [')']))

theorem insertAt_append {ys added : Line} {at_ : Nat} (h : at_ = xs.length) :
    insertAt (xs ++ ys) at_ added = xs ++ (added ++ ys) := by
  rw [insertAt, h, take_left, drop_left, append_assoc]

theorem rdropWhile_rtakeWhile (inner rest : Line) :
    inner.rdropWhile isBlank ++ (inner.rtakeWhile isBlank ++ rest) = inner ++ rest := by
  rw [← append_assoc, rdropWhile_append_rtakeWhile]

theorem recordPr_append (start text rest pr : Line) :
    recordPr (start ++ (text ++ rest)) (spansAt start.length text) pr =
      start ++ (notedText (prEntry pr) text ++ rest) := by
  unfold recordPr notedText spansAt
  dsimp only
  cases hgroup : notesGroup text with
  | none =>
    dsimp only [Option.map_none]
    rw [← append_assoc, insertAt_append (by rw [length_append])]
    simp only [append_assoc]
    rfl
  | some parts =>
    obtain ⟨front, inner⟩ := parts
    obtain ⟨rfl, -⟩ := notesGroup_iff.mp hgroup
    dsimp only [Option.map_some]
    have hinner : ((start ++ (front ++ '(' :: (inner ++ [')']) ++ rest)).take
        (start.length + (front ++ '(' :: (inner ++ [')'])).length - 1)).drop
          (start.length + front.length + 1) = inner := by
      have hsplit : start ++ (front ++ '(' :: (inner ++ [')']) ++ rest) =
          (start ++ front ++ ['(']) ++ inner ++ (')' :: rest) := by simp
      rw [hsplit, take_left' (by simp; omega), drop_left' (by simp; omega)]
    rw [hinner]
    split
    · rfl
    · have hsplit : start ++ (front ++ '(' :: (inner ++ [')']) ++ rest) =
          (start ++ front ++ '(' :: inner.rdropWhile isBlank) ++
            (inner.rtakeWhile isBlank ++ ')' :: rest) := by
        simp [rdropWhile_rtakeWhile]
      rw [hsplit, insertAt_append (by simp; omega)]
      simp

/-- `added` is put into a text. -/
structure Inserted (text text' front added behind : Line) : Prop where
  front_ne : front ≠ []
  before : text = front ++ behind
  after : text' = front ++ (added ++ behind)
  noDot : Char.ofNat 0xB7 ∉ added
  noFeed : '\n' ∉ added
  last : added.getLast? ≠ some ' '
  added_cases : (∃ rest, added = ',' :: rest) ∧ behind ≠ [] ∨
    behind = [] ∧ (∃ rest, added = ' ' :: '(' :: rest) ∧ added.getLast? = some ')'

theorem notedText_inserted {text : Line} (hentry : IsEntry entry) (hne : text ≠ []) :
    notedText entry text = text ∨
      ∃ front added behind, Inserted text (notedText entry text) front added behind := by
  have hplain : ∀ d, d = '(' ∨ d = ')' ∨ d = ',' ∨ d = Char.ofNat 0xB7 ∨ d = '\n' → d ∉ entry := by
    rintro d hd hmem
    obtain ⟨h1, h2, h3, h4, h5⟩ := hentry.plain d hmem
    tauto
  have hdot := hplain (Char.ofNat 0xB7) (by simp)
  have hfeed := hplain '\n' (by simp)
  unfold notedText
  cases hgroup : notesGroup text with
  | none =>
    right
    refine ⟨text, " (".toList ++ (entry ++ [')']), [],
      ⟨hne, by simp, by simp, ?_, ?_, ?_, .inr ?_⟩⟩
    · simp only [mem_append, not_or]
      exact ⟨by decide, hdot, by decide⟩
    · simp only [mem_append, not_or]
      exact ⟨by decide, hfeed, by decide⟩
    · rw [← append_assoc, getLast?_concat]
      decide
    · exact ⟨rfl, ⟨_, rfl⟩, by rw [← append_assoc, getLast?_concat]⟩
  | some parts =>
    obtain ⟨front, inner⟩ := parts
    obtain ⟨heq, -⟩ := notesGroup_iff.mp hgroup
    dsimp only
    split
    · exact .inl rfl
    · right
      refine ⟨front ++ '(' :: inner.rdropWhile isBlank, ", ".toList ++ entry,
        inner.rtakeWhile isBlank ++ [')'], ⟨by simp, ?_, by simp, ?_, ?_, ?_,
          .inl ⟨⟨_, rfl⟩, by simp⟩⟩⟩
      · rw [heq]
        simp [rdropWhile_rtakeWhile]
      · simp only [mem_append, not_or]
        exact ⟨by decide, hdot⟩
      · simp only [mem_append, not_or]
        exact ⟨by decide, hfeed⟩
      · rw [getLast?_append_of_ne_nil _ hentry.ne_nil]
        intro hlast
        exact absurd (hentry.last ' ' hlast) (by decide)

theorem isBoundary_head {text : Line} (h : IsBlanks text) : isBoundary text.head? = true := by
  cases text with
  | nil => rfl
  | cons c rest =>
    have hc := h c (by simp)
    simp only [isBlank, Bool.or_eq_true, decide_eq_true_eq] at hc
    rcases hc with rfl | rfl <;> rfl

theorem namesFrom_here {entry : Line} (hentry : IsEntry entry) {last : Option Char}
    (hlast : isBoundary last = true) {behind : Line} (hbehind : IsBlanks behind) :
    namesFrom entry last 0 (entry ++ behind) = true := by
  have hprefix : entry.isPrefixOf (entry ++ behind) = true :=
    List.isPrefixOf_iff_prefix.mpr (prefix_append _ _)
  have hends : isBoundary ((entry ++ behind).drop entry.length).head? = true := by
    rw [drop_left]
    exact isBoundary_head hbehind
  obtain ⟨c, cs, hcons⟩ := exists_cons_of_ne_nil (l := entry ++ behind)
    (by simp [hentry.ne_nil])
  rw [hcons] at hprefix hends ⊢
  rw [namesFrom, if_pos hprefix, hlast, hends]
  rfl

theorem namesFrom_append (hentry : IsEntry entry) {behind : Line}
    (hbehind : IsBlanks behind) (front : Line) (last : Option Char) (skip : Nat)
    (hskip : skip ≤ front.length + 1) :
    namesFrom entry last skip (front ++ ',' :: ' ' :: (entry ++ behind)) = true := by
  induction front generalizing last skip with
  | nil =>
    have hno : ∀ c cs, c = ',' ∨ c = ' ' → entry.isPrefixOf (c :: cs) = false := by
      intro c cs hc
      by_contra hprefix
      obtain ⟨rest, hrest⟩ := List.isPrefixOf_iff_prefix.mp (Bool.not_eq_false _ ▸ hprefix)
      have hhead := hentry.head
      rcases entry with _ | ⟨d, entry⟩
      · cases hhead
      · obtain ⟨rfl, -⟩ := List.cons.inj hrest
        cases hhead
        rcases hc with hc | hc <;> exact absurd hc (by decide)
    have hspace : namesFrom entry (some ',') 0 (' ' :: (entry ++ behind)) = true := by
      rw [namesFrom, hno ' ' _ (.inr rfl), if_neg (by simp)]
      exact namesFrom_here hentry (by decide) hbehind
    rcases skip with _ | _ | skip
    · rw [nil_append, namesFrom, hno ',' _ (.inl rfl), if_neg (by simp)]
      exact hspace
    · rw [nil_append, namesFrom]
      exact hspace
    · rw [length_nil] at hskip
      omega
  | cons c front ih =>
    rw [length_cons] at hskip
    rcases skip with _ | skip
    · rw [cons_append, namesFrom]
      split
      next hprefix =>
        -- the match lies in front of the comma
        have hlength : entry.length ≤ front.length + 1 := by
          obtain ⟨rest, hrest⟩ := List.isPrefixOf_iff_prefix.mp hprefix
          by_contra hlong
          have hcomma : ',' ∈ entry := by
            have hat : entry[front.length + 1]? = some ',' := by
              have h := congrArg (·[front.length + 1]?) hrest
              simp only [List.getElem?_append_left (show front.length + 1 < entry.length by omega)]
                at h
              rw [h, List.getElem?_cons_succ, List.getElem?_append_right (by omega)]
              simp
            exact mem_of_getElem? hat
          exact (hentry.plain ',' hcomma).2.2.1 rfl
        rw [ih (some c) (entry.length - 1) (by omega), Bool.or_true]
      next => exact ih (some c) 0 (by omega)
    · rw [cons_append, namesFrom]
      exact ih (some c) skip (by omega)

def NotesRecorded (entry : Line) (old new : Option String) : Prop :=
  new = old ∨ old = none ∧ new = some (.ofList entry) ∨
    ∃ notes, old = some notes ∧ new = some (.ofList (notes.toList ++ ", ".toList ++ entry))

def notesOf (text : Line) : Option String :=
  (notesGroup text).map fun (_, inner) => .ofList (trim inner)

theorem notedText_reads {text : Line} (hentry : IsEntry entry) (htext : IsTrimmed text) :
    frontOf (notedText entry text) = frontOf text ∧
      NotesRecorded entry (notesOf text) (notesOf (notedText entry text)) ∧
      notedText entry (notedText entry text) = notedText entry text := by
  have hplain : unclosed 1 entry.reverse = some 1 := unclosed_plain (by omega) fun c hc =>
    ⟨(hentry.plain c (by simpa using hc)).1, (hentry.plain c (by simpa using hc)).2.1⟩
  cases hgroup : notesGroup text with
  | none =>
    have hnoted : notedText entry text = (text ++ [' ']) ++ '(' :: (entry ++ [')']) := by
      rw [notedText, hgroup]
      simp
    have hgroup' : notesGroup (notedText entry text) = some (text ++ [' '], entry) := by
      refine notesGroup_iff.mpr ⟨hnoted, hplain, by simp, ?_⟩
      rw [trim_self hentry.isTrimmed]
      exact hentry.ne_nil
    refine ⟨?_, ?_, ?_⟩
    · have htrim : trim (text ++ [' ']) = text := by
        by_cases hne : text = []
        · subst hne
          rfl
        · exact (@trim_blanks [] _ _ (by simp [IsBlanks]) (by simp [IsBlanks, isBlank]) htext
            hne).2
      rw [frontOf, hgroup', frontOf, hgroup]
      exact htrim
    · rw [notesOf, notesOf, hgroup, hgroup']
      refine .inr (.inl ⟨rfl, ?_⟩)
      dsimp only [Option.map_some]
      rw [trim_self hentry.isTrimmed]
    · conv_lhs => rw [notedText, hgroup']
      have hnames := @namesFrom_here _ hentry none rfl [] (by simp [IsBlanks])
      rw [append_nil] at hnames
      exact if_pos hnames
  | some parts =>
    obtain ⟨front, inner⟩ := parts
    obtain ⟨heq, hinner, hfront, hne⟩ := notesGroup_iff.mp hgroup
    by_cases hnames : names_ inner entry = true
    · have hnoted : notedText entry text = text := by
        rw [notedText, hgroup]
        exact if_pos hnames
      rw [hnoted]
      exact ⟨rfl, .inl rfl, hnoted⟩
    · obtain ⟨lead, trail, hlead, htrail, hsplit, -⟩ := exists_trim inner
      have htrimmed := isTrimmed_trim inner
      have hdrop : inner.rdropWhile isBlank = lead ++ trim inner := by
        conv_lhs => rw [hsplit, ← append_assoc]
        refine rdropWhile_append htrail ?_
        rw [getLast?_append_of_ne_nil _ hne]
        exact htrimmed.last
      have htake : inner.rtakeWhile isBlank = trail := by
        have hkept := rdropWhile_rtakeWhile inner []
        rw [append_nil, append_nil, hdrop] at hkept
        conv_rhs at hkept => rw [hsplit, ← append_assoc]
        exact append_cancel_left hkept
      let notes := trim inner ++ (", ".toList ++ entry)
      have hnoted : notedText entry text = front ++ '(' :: ((lead ++ (notes ++ trail)) ++ [')']) := by
        rw [notedText, hgroup]
        dsimp only
        rw [if_neg hnames, hdrop, htake]
        simp [notes]
      have hnotes : IsTrimmed notes := by
        refine ⟨?_, ?_⟩
        · rw [List.head?_append_of_ne_nil _ hne]
          exact htrimmed.head
        · rw [getLast?_append_of_ne_nil _ (by simp), getLast?_append_of_ne_nil _
            hentry.ne_nil]
          exact hentry.last
      have htrim : trim (lead ++ (notes ++ trail)) = notes :=
        (trim_blanks hlead htrail hnotes (by simp [notes])).2
      have hunclosed : unclosed 1 (lead ++ (notes ++ trail)).reverse = some 1 := by
        have htrail' : unclosed 1 trail.reverse = some 1 := unclosed_plain (by omega) fun c hc => by
          have hblank := htrail c (by simpa using hc)
          refine ⟨?_, ?_⟩ <;> rintro rfl <;> exact absurd hblank (by decide)
        rw [hsplit] at hinner
        simp only [reverse_append, append_assoc, unclosed_append, htrail',
          Option.bind_some] at hinner
        have hcomma : unclosed 1 ", ".toList.reverse = some 1 := rfl
        simp only [notes, reverse_append, append_assoc, unclosed_append, htrail', hplain,
          hcomma, Option.bind_some]
        exact hinner
      have hgroup' : notesGroup (notedText entry text) =
          some (front, lead ++ (notes ++ trail)) := by
        refine notesGroup_iff.mpr ⟨hnoted, hunclosed, hfront, ?_⟩
        rw [htrim]
        simp [notes]
      refine ⟨by rw [frontOf, hgroup', frontOf, hgroup], ?_, ?_⟩
      · rw [notesOf, notesOf, hgroup, hgroup']
        dsimp only [Option.map_some]
        rw [htrim]
        exact .inr (.inr ⟨_, rfl, by simp [notes]⟩)
      · conv_lhs => rw [notedText, hgroup']
        dsimp only
        rw [if_pos]
        have hnamed := namesFrom_append hentry htrail (lead ++ trim inner) none 0 (by omega)
        have hsame : lead ++ trim inner ++ ',' :: ' ' :: (entry ++ trail) =
            lead ++ (notes ++ trail) := by simp [notes]
        rw [hsame] at hnamed
        exact hnamed

/-! ## The ticked line -/

theorem lineText_eq_self :
    lineText line = line ↔ ∀ c ∈ line.getLast?, isLineEnd c = false := by
  rw [lineText, rdropWhile_eq_self_iff]
  constructor
  · intro h c hc
    have hne : line ≠ [] := by
      rintro rfl
      cases hc
    rw [getLast?_eq_some_getLast hne, Option.mem_some_iff] at hc
    simpa [hc] using h hne
  · intro h hne
    simpa using h _ (getLast?_eq_some_getLast hne)

section Insertion

variable {text text' front added behind : Line}

section

variable (h : Inserted text text' front added behind)

include h

theorem Inserted.isTrimmed (htext : IsTrimmed text) :
    IsTrimmed text' := by
  refine ⟨?_, ?_⟩
  · have hhead := htext.head
    rw [h.before, List.head?_append_of_ne_nil _ h.front_ne] at hhead
    rwa [h.after, List.head?_append_of_ne_nil _ h.front_ne]
  · rcases h.added_cases with ⟨-, hbehind⟩ | ⟨hbehind, -, hlast⟩
    · have hlast := htext.last
      rw [h.before, getLast?_append_of_ne_nil _ hbehind] at hlast
      rwa [h.after, ← append_assoc, getLast?_append_of_ne_nil _ hbehind]
    · have hne : added ≠ [] := by
        rintro hnil
        simp [hnil] at hlast
      rw [h.after, hbehind, append_nil, getLast?_append_of_ne_nil _ hne, hlast]
      rintro c ⟨⟩
      decide

theorem Inserted.last_cases :
    text'.getLast? = text.getLast? ∨ text'.getLast? = some ')' := by
  rcases h.added_cases with ⟨-, hbehind⟩ | ⟨hbehind, -, hlast⟩
  · left
    rw [h.before, h.after, ← append_assoc, getLast?_append_of_ne_nil _ hbehind,
      getLast?_append_of_ne_nil _ hbehind]
  · right
    have hne : added ≠ [] := by
      rintro hnil
      simp [hnil] at hlast
    rw [h.after, hbehind, append_nil, getLast?_append_of_ne_nil _ hne, hlast]

theorem Inserted.hasClause {clause : Line}
    (hclause : HasClause (lead ++ (text ++ trail)) clause after)
    (htrail : clause = [] → trail = []) : HasClause (lead ++ (text' ++ trail)) clause after := by
  rcases hclause with ⟨rfl, rfl, hnone⟩ | hmark
  · obtain rfl := htrail rfl
    refine .inl ⟨rfl, rfl, ?_⟩
    rw [h.before, append_nil, ← append_assoc] at hnone
    rw [h.after, append_nil, ← append_assoc]
    refine splitClause_insert ?_ h.noDot h.last hnone
    rcases h.added_cases with ⟨hcomma, -⟩ | ⟨hbehind, hopen, -⟩
    · exact .inl hcomma
    · exact .inr ⟨hbehind, hopen⟩
  · exact .inr hmark

end

end Insertion

def recordedText (pr : Option Line) (text : Line) : Line :=
  match pr with
  | some pr => notedText (prEntry pr) text
  | none => text

def NotesKept (pr : Option Line) (old new : Option String) : Prop :=
  new = old ∨ ∃ ref, pr = some ref ∧ NotesRecorded (prEntry ref) old new

theorem recordedText_inserted {text : Line} (hpr : pr.all prIsRecordable = true) (hne : text ≠ []) :
    recordedText pr text = text ∨
      ∃ front added behind, Inserted text (recordedText pr text) front added behind := by
  cases pr with
  | none => exact .inl rfl
  | some pr => exact notedText_inserted (isEntry_prEntry hpr) hne

theorem recordedText_reads {text : Line} (hpr : pr.all prIsRecordable = true)
    (htext : IsTrimmed text) :
    frontOf (recordedText pr text) = frontOf text ∧
      NotesKept pr (notesOf text) (notesOf (recordedText pr text)) ∧
      recordedText pr (recordedText pr text) = recordedText pr text := by
  cases pr with
  | none => exact ⟨rfl, .inl rfl, rfl⟩
  | some pr =>
    obtain ⟨hfront, hnotes, hagain⟩ := notedText_reads (isEntry_prEntry hpr) htext
    exact ⟨hfront, .inr ⟨pr, rfl, hnotes⟩, hagain⟩

/-- The mark of a ticked row. -/
def tickedMark (mark : Line) (done : Bool) : Line := if done then mark else "- [x] ".toList

theorem isMark_tickedMark (h : IsMark mark done) :
    IsMark (tickedMark mark done) true := by
  rcases h with ⟨rfl, rfl⟩ | ⟨rfl, h⟩
  · exact .inr ⟨rfl, .inl rfl⟩
  · exact .inr ⟨rfl, h⟩

theorem tickLine_append {text : Line} (hmark : IsMark mark done)
    (hrow : row.done = done) (pr : Option Line) :
    tickLine (rowStart mark id lead ++ (text ++ rest)) row
        (spansAt (rowStart mark id lead).length text) pr =
      rowStart (tickedMark mark done) id lead ++ (recordedText pr text ++ rest) := by
  have hset : ∀ behind : Line,
      (if row.done then rowStart mark id lead ++ behind
        else (rowStart mark id lead ++ behind).set 3 'x') =
        rowStart (tickedMark mark done) id lead ++ behind := by
    intro behind
    rw [hrow]
    rcases hmark with ⟨rfl, rfl⟩ | ⟨rfl, -⟩ <;> rfl
  cases pr with
  | none => exact hset _
  | some pr =>
    unfold tickLine
    dsimp only
    rw [recordPr_append]
    exact hset _

theorem tickLine_reads (h : parseRow line = some (row, spans)) (hend : lineText line = line)
    (hpr : pr.all prIsRecordable = true) :
    ∃ notes spans', parseRow (tickLine line row spans pr) =
        some ({ row with done := true, notes }, spans') ∧ NotesKept pr row.notes notes ∧
      (∀ row' : Row, row'.done = true →
        tickLine (tickLine line row spans pr) row' spans' pr = tickLine line row spans pr) ∧
      lineText (tickLine line row spans pr) = tickLine line row spans pr ∧
      ('\n' ∉ line → '\n' ∉ tickLine line row spans pr) := by
  obtain ⟨mark, id, lead, text, trail, clause, done, after, hshape, rfl, rfl, rfl⟩ :=
    parseRow_iff_shape.mp h
  have hne := ne_nil_of_titled hshape.titled
  rw [tickLine_append hshape.isMark rfl]
  obtain ⟨hfront, hnotes, hagain⟩ := recordedText_reads hpr hshape.trimmed
  have hinserted := recordedText_inserted hpr hne
  have hlast := lineText_eq_self.mp hend
  have hmark := isMark_tickedMark hshape.isMark
  have htrail : clause = [] → trail = [] := by
    rintro rfl
    by_contra htrail
    rw [append_nil, ← append_assoc, getLast?_append_of_ne_nil _ htrail] at hlast
    have hblank := hshape.trails _ (getLast_mem htrail)
    have hnot := hlast _ (getLast?_eq_some_getLast htrail)
    simp only [isBlank, isLineEnd, Bool.or_eq_true, decide_eq_true_eq, Bool.or_eq_false_iff,
      decide_eq_false_iff_not] at hblank hnot
    tauto
  have hshape' : RowShape (tickedMark mark done) id lead (recordedText pr text) trail clause true
      after := by
    refine ⟨hmark, hshape.isId, hshape.blank, hshape.leads, hshape.trails, ?_,
      by rw [hfront]; exact hshape.titled, ?_⟩
    · rcases hinserted with heq | ⟨_, _, _, hinserted⟩
      · rw [heq]
        exact hshape.trimmed
      · exact hinserted.isTrimmed hshape.trimmed
    · rcases hinserted with heq | ⟨_, _, _, hinserted⟩
      · rw [heq]
        exact hshape.clause
      · exact hinserted.hasClause hshape.clause htrail
  refine ⟨notesOf (recordedText pr text), _,
    parseRow_iff_shape.mpr ⟨_, _, _, _, _, _, _, _, hshape', rfl, ?_, rfl⟩, hnotes, ?_, ?_, ?_⟩
  · simp only [rowWith, hfront, notesOf]
  · intro row' hrow'
    rw [tickLine_append hmark hrow', hagain]
    rfl
  · rw [lineText_eq_self]
    have hne' := ne_nil_of_titled hshape'.titled
    rw [getLast?_append_of_ne_nil _ (by simp [hne])] at hlast
    rw [getLast?_append_of_ne_nil _ (by simp [hne'])]
    by_cases hrest : trail ++ clause = []
    · rw [hrest, append_nil] at hlast ⊢
      rcases hinserted with heq | ⟨_, _, _, hinserted⟩
      · rwa [heq]
      · rcases hinserted.last_cases with heq | heq
        · rwa [heq]
        · rw [heq]
          rintro c ⟨⟩
          decide
    · rw [getLast?_append_of_ne_nil _ hrest] at hlast ⊢
      exact hlast
  · intro hfeed
    have hmarkFeed : '\n' ∉ tickedMark mark done := by
      rcases hmark with ⟨hfalse, -⟩ | ⟨-, heq | heq⟩
      · cases hfalse
      · rw [heq]
        decide
      · rw [heq]
        decide
    have htextFeed : '\n' ∉ text → '\n' ∉ recordedText pr text := by
      intro htext
      rcases hinserted with heq | ⟨_, _, _, hinserted⟩
      · rwa [heq]
      · rw [hinserted.before, mem_append, not_or] at htext
        rw [hinserted.after, mem_append, mem_append, not_or, not_or]
        exact ⟨htext.1, hinserted.noFeed, htext.2⟩
    simp only [rowStart, mem_append, not_or] at hfeed ⊢
    exact ⟨⟨hmarkFeed, hfeed.1.2⟩, htextFeed hfeed.2.1, hfeed.2.2⟩

end NilsCli.Tracker
