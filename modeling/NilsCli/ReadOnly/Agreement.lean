import NilsCli.ReadOnly.Commands

/-!
# The audited parser and the shell

What a round of the parser does is the relation `Reads`; the parser and the shell go through a
command in step.
-/

namespace NilsCli.ReadOnly

open Lib Lib.Shell

def formFeed : Char := Char.ofNat 0x0C

/-! ## Rounds -/

/-- A word that has been started is finished. -/
def Reading.flush (reading : Reading) : Reading :=
  if reading.started then ⟨reading.words ++ [.ofList reading.word], [], false⟩ else reading

inductive Reads : Quoting → Reading → List Char → List String → Prop where
  | finish {reading : Reading} : Reads .bare reading [] reading.flush.words
  | blank {reading : Reading} {c : Char} {cs out} (hc : c = ' ' ∨ c = '\t' ∨ c = formFeed)
      (rest : Reads .bare reading.flush cs out) : Reads .bare reading (c :: cs) out
  | openSingle {reading : Reading} {cs out} (rest : Reads .single (reading.push []) cs out) :
      Reads .bare reading (apostrophe :: cs) out
  | openDouble {reading : Reading} {cs out} (rest : Reads .double (reading.push []) cs out) :
      Reads .bare reading (quotationMark :: cs) out
  | escape {reading : Reading} {c : Char} {cs out} (hc : c ≠ '\n')
      (rest : Reads .bare (reading.push [c]) cs out) :
      Reads .bare reading (backslash :: c :: cs) out
  | plain {reading : Reading} {c : Char} {cs out}
      (hblank : isBlank c = false) (hfeed : c ≠ formFeed) (hsingle : c ≠ apostrophe)
      (hdouble : c ≠ quotationMark) (hescape : c ≠ backslash) (hspecial : isSpecial c = false)
      (hstart : reading.started = false → c ≠ '#' ∧ c ≠ '~')
      (rest : Reads .bare (reading.push [c]) cs out) : Reads .bare reading (c :: cs) out
  | closeSingle {reading : Reading} {cs out} (rest : Reads .bare (reading.push []) cs out) :
      Reads .single reading (apostrophe :: cs) out
  | inSingle {reading : Reading} {c : Char} {cs out} (hsingle : c ≠ apostrophe)
      (rest : Reads .single (reading.push [c]) cs out) : Reads .single reading (c :: cs) out
  | closeDouble {reading : Reading} {cs out} (rest : Reads .bare (reading.push []) cs out) :
      Reads .double reading (quotationMark :: cs) out
  | escapeDouble {reading : Reading} {c : Char} {cs out} (hc : c = quotationMark ∨ c = backslash)
      (rest : Reads .double (reading.push [c]) cs out) :
      Reads .double reading (backslash :: c :: cs) out
  | keepDouble {reading : Reading} {c : Char} {cs out}
      (hc : ¬ (c = quotationMark ∨ c = backslash))
      (rest : Reads .double (reading.push [backslash, c]) cs out) :
      Reads .double reading (backslash :: c :: cs) out
  | inDouble {reading : Reading} {c : Char} {cs out} (hdouble : c ≠ quotationMark)
      (hescape : c ≠ backslash) (hactive : isActive c = false)
      (rest : Reads .double (reading.push [c]) cs out) : Reads .double reading (c :: cs) out

variable {quoting : Quoting} {reading : Reading} {c : Char} {cs : List Char}
  {out : List String}

theorem pushStarted_eq_ok {reading' : Reading} (h : pushStarted reading = .ok reading') :
    reading' = reading.flush := by
  unfold Reading.flush
  unfold pushStarted at h
  split at h
  next hstarted =>
    unfold pushWord at h
    obtain ⟨-, h⟩ := ensure_bind_ok.mp h
    cases h
    rw [if_pos hstarted]
  next hstarted =>
    cases h
    rw [if_neg hstarted]

theorem special_of_composition (h : isComposition c = false) (hline : c ≠ '\n') :
    isSpecial c = false := by
  simp only [isComposition, Bool.or_eq_false_iff, decide_eq_false_iff_not] at h
  simp only [isSpecial, Bool.or_eq_false_iff, decide_eq_false_iff_not]
  tauto

theorem whitespace_cases (h : isAsciiWhitespace c = true) (hline : c ≠ '\n' ∧ c ≠ '\r') :
    c = ' ' ∨ c = '\t' ∨ c = formFeed := by
  simp only [isAsciiWhitespace, Bool.or_eq_true, decide_eq_true_eq] at h
  rcases h with (((h | h) | h) | h) | h
  · exact .inl h
  · exact .inr (.inl h)
  · exact absurd h hline.1
  · exact .inr (.inr (Char.toNat_inj.mp h))
  · exact absurd h hline.2

/-- What the loop does is what the relation says. -/
theorem reads_of_parse (h : parseFrom quoting reading cs = .ok out) :
    Reads quoting reading cs out := by
  induction hn : cs.length using Nat.strong_induction_on generalizing quoting reading cs with
  | _ n ih =>
    subst hn
    match quoting, cs with
    | .bare, [] =>
      unfold parseFrom at h
      obtain ⟨reading', hpush, h⟩ := bind_eq_ok.mp h
      obtain rfl := pushStarted_eq_ok hpush
      cases h
      exact .finish
    | .single, [] => cases h
    | .double, [] => cases h
    | .single, c :: cs =>
      unfold parseFrom at h
      obtain ⟨-, -, h⟩ := bind_eq_ok.mp h
      obtain ⟨-, -, h⟩ := bind_eq_ok.mp h
      have hrest := ih cs.length (by simp) h rfl
      by_cases hc : c = apostrophe
      · rw [if_pos hc, if_pos hc] at hrest
        exact hc ▸ .closeSingle hrest
      · rw [if_neg hc, if_neg hc] at hrest
        exact .inSingle hc hrest
    | .double, c :: cs =>
      unfold parseFrom at h
      obtain ⟨-, -, h⟩ := bind_eq_ok.mp h
      by_cases hquote : c = quotationMark
      · rw [if_pos hquote] at h
        obtain ⟨-, -, h⟩ := bind_eq_ok.mp h
        exact hquote ▸ .closeDouble (ih cs.length (by simp) h rfl)
      · rw [if_neg hquote] at h
        obtain ⟨hactive, h⟩ := ensure_bind_ok.mp h
        by_cases hescape : c = backslash
        · rw [if_pos hescape] at h
          match cs with
          | [] => cases h
          | escaped :: cs =>
            obtain ⟨-, -, h⟩ := bind_eq_ok.mp h
            have hshorter : cs.length < (c :: escaped :: cs).length := by
              rw [List.length_cons, List.length_cons]
              omega
            have hrest := ih cs.length hshorter h rfl
            by_cases hc : escaped = quotationMark ∨ escaped = backslash
            · rw [if_pos hc] at hrest
              exact hescape ▸ .escapeDouble hc hrest
            · rw [if_neg hc] at hrest
              exact hescape ▸ .keepDouble hc hrest
        · rw [if_neg hescape] at h
          obtain ⟨-, h⟩ := ensure_bind_ok.mp h
          obtain ⟨-, -, h⟩ := bind_eq_ok.mp h
          exact .inDouble hquote hescape hactive (ih cs.length (by simp) h rfl)
    | .bare, c :: cs =>
      unfold parseFrom at h
      obtain ⟨-, -, h⟩ := bind_eq_ok.mp h
      by_cases hspace : isAsciiWhitespace c = true
      · rw [if_pos hspace] at h
        obtain ⟨hline, h⟩ := ensure_bind_ok.mp h
        obtain ⟨reading', hpush, h⟩ := bind_eq_ok.mp h
        obtain rfl := pushStarted_eq_ok hpush
        obtain ⟨-, -, h⟩ := bind_eq_ok.mp h
        exact .blank (whitespace_cases hspace hline) (ih cs.length (by simp) h rfl)
      · rw [if_neg hspace] at h
        by_cases hquote : c = apostrophe ∨ c = quotationMark
        · rw [if_pos hquote] at h
          obtain ⟨-, -, h⟩ := bind_eq_ok.mp h
          have hrest := ih cs.length (by simp) h rfl
          rcases hquote with rfl | rfl
          · exact .openSingle hrest
          · exact .openDouble hrest
        · rw [if_neg hquote] at h
          by_cases hescape : c = backslash
          · rw [if_pos hescape] at h
            match cs with
            | [] => cases h
            | escaped :: cs =>
              obtain ⟨hline, h⟩ := ensure_bind_ok.mp h
              obtain ⟨-, -, h⟩ := bind_eq_ok.mp h
              have hshorter : cs.length < (c :: escaped :: cs).length := by
                rw [List.length_cons, List.length_cons]
                omega
              exact hescape ▸ .escape hline.1 (ih cs.length hshorter h rfl)
          · rw [if_neg hescape] at h
            obtain ⟨hcomposition, h⟩ := ensure_bind_ok.mp h
            obtain ⟨htilde, h⟩ := ensure_bind_ok.mp h
            obtain ⟨-, -, h⟩ := bind_eq_ok.mp h
            rw [not_or] at hquote
            have hwhite : isBlank c = false ∧ c ≠ formFeed ∧ c ≠ '\n' := by
              refine ⟨?_, ?_, ?_⟩
              · by_contra hblank
                rw [Bool.not_eq_false, isBlank, Bool.or_eq_true, decide_eq_true_eq,
                  decide_eq_true_eq] at hblank
                rcases hblank with rfl | rfl <;> exact hspace (by decide)
              · rintro rfl
                exact hspace (by decide)
              · rintro rfl
                exact hspace (by decide)
            refine .plain hwhite.1 hwhite.2.1 hquote.1 hquote.2 hescape
              (special_of_composition hcomposition hwhite.2.2) (fun hstarted => ⟨?_, ?_⟩)
              (ih cs.length (by simp) h rfl)
            · rintro rfl
              exact absurd hcomposition (by decide)
            · rintro rfl
              exact htilde ⟨rfl, hstarted⟩

/-! ## Hazards -/

inductive Hazard where
  /-- In double quotes: a backslash before a dollar sign, a backquote or a line break. -/
  | keptEscape
  /-- Outside quotes: a form feed. -/
  | blankFeed
  deriving DecidableEq

def isKept (c : Char) : Bool := c = '$' || c = backquote || c = '\n'

/-- The hazards of a command, in order. -/
def hazards : Quoting → List Char → List Hazard
  | .bare, [] => []
  | .single, [] => []
  | .double, [] => []
  | .bare, c :: cs =>
    if c = formFeed then .blankFeed :: hazards .bare cs
    else if c = apostrophe then hazards .single cs
    else if c = quotationMark then hazards .double cs
    else if c = backslash then
      match cs with
      | [] => []
      | _ :: cs => hazards .bare cs
    else hazards .bare cs
  | .single, c :: cs => if c = apostrophe then hazards .bare cs else hazards .single cs
  | .double, c :: cs =>
    if c = quotationMark then hazards .bare cs
    else if c = backslash then
      match cs with
      | [] => []
      | next :: cs => if isKept next then .keptEscape :: hazards .double cs else hazards .double cs
    else hazards .double cs

theorem hazards_feed : hazards .bare (formFeed :: cs) = .blankFeed :: hazards .bare cs := by
  rw [hazards.eq_def]
  rfl

theorem hazards_bare (hfeed : c ≠ formFeed) (hsingle : c ≠ apostrophe) (hdouble : c ≠ quotationMark)
    (hescape : c ≠ backslash) : hazards .bare (c :: cs) = hazards .bare cs := by
  rw [hazards.eq_def]
  simp only [hfeed, hsingle, hdouble, hescape, if_false]

theorem hazards_openSingle : hazards .bare (apostrophe :: cs) = hazards .single cs := by
  rw [hazards.eq_def]
  rfl

theorem hazards_openDouble : hazards .bare (quotationMark :: cs) = hazards .double cs := by
  rw [hazards.eq_def]
  rfl

theorem hazards_single (h : c ≠ apostrophe) : hazards .single (c :: cs) = hazards .single cs :=
  if_neg h

theorem hazards_closeDouble : hazards .double (quotationMark :: cs) = hazards .bare cs := by
  rw [hazards.eq_def]
  rfl

theorem hazards_double (hdouble : c ≠ quotationMark) (hescape : c ≠ backslash) :
    hazards .double (c :: cs) = hazards .double cs := by
  rw [hazards.eq_def]
  simp only [hdouble, hescape, if_false]

theorem hazards_kept (h : isKept c = true) :
    hazards .double (backslash :: c :: cs) = .keptEscape :: hazards .double cs := if_pos h

theorem hazards_doubleEscape (h : isKept c = false) :
    hazards .double (backslash :: c :: cs) = hazards .double cs := by
  rw [hazards.eq_def]
  simp only [h, Bool.false_eq_true, if_false]
  rfl

/-- A blank opens no quote and escapes nothing. -/
theorem not_quote_of_blank (h : isBlank c = true) :
    c ≠ formFeed ∧ c ≠ apostrophe ∧ c ≠ quotationMark ∧ c ≠ backslash := by
  refine ⟨?_, ?_, ?_, ?_⟩ <;> rintro rfl <;> exact absurd h (by decide)

theorem isBlank_or_feed (h : c = ' ' ∨ c = '\t' ∨ c = formFeed) : isBlank c = true ∨ c = formFeed := by
  rcases h with rfl | rfl | rfl
  · exact .inl (by decide)
  · exact .inl (by decide)
  · exact .inr rfl

/-! ## Without hazards -/

structure Matches (quoting : Quoting) (reading : Reading) (words : List Word)
    (word : Option Word) : Prop where
  wordsEq : reading.words = words.map value
  wordEq : reading.word = chars (word.getD [])
  startedEq : reading.started = word.isSome
  quoted : quoting ≠ .bare → reading.started = true
  nonempty : word ≠ some []
  unspecial : Unspecial words
  starts : startsSpecial (word.getD []) = false
  clean : ∀ mark ∈ word.getD [], mark.isSpecial = false

variable {quoting' : Quoting} {words : List Word} {word : Option Word} {marks : Word}

theorem Matches.flush (h : Matches quoting reading words word) :
    Matches .bare reading.flush (words ++ word.toList) none := by
  cases word with
  | none =>
    have hstarted : ¬ reading.started = true := by simp [h.startedEq]
    rw [Reading.flush, if_neg hstarted, Option.toList_none, List.append_nil]
    exact ⟨h.wordsEq, h.wordEq, h.startedEq, by simp, h.nonempty, h.unspecial, h.starts, h.clean⟩
  | some w =>
    have hstarted : reading.started = true := by simp [h.startedEq]
    rw [Reading.flush, if_pos hstarted, Option.toList_some]
    refine ⟨?_, rfl, rfl, by simp, by simp, fun x hx => ?_, rfl, by simp⟩
    · simp [h.wordsEq, h.wordEq, value]
    · rcases List.mem_append.mp hx with hx | hx
      · exact h.unspecial x hx
      · rw [List.mem_singleton.mp hx]
        exact ⟨h.starts, h.clean⟩

theorem startsSpecial_append {w : Word} (hw : startsSpecial w = false)
    (hmarks : w = [] → startsSpecial marks = false) : startsSpecial (w ++ marks) = false := by
  cases w with
  | nil => exact hmarks rfl
  | cons mark w =>
    rcases mark with ⟨c, kind⟩
    cases kind <;> exact hw

theorem Matches.push (marks : Word) (h : Matches quoting reading words word) (hne : marks ≠ [])
    (hspecial : ∀ mark ∈ marks, mark.isSpecial = false)
    (hstart : reading.started = false → startsSpecial marks = false) :
    Matches quoting' (reading.push (chars marks)) words (extend word marks) where
  wordsEq := h.wordsEq
  wordEq := by simp [Reading.push, extend, h.wordEq, chars]
  startedEq := rfl
  quoted := fun _ => rfl
  nonempty := by simp [extend, hne]
  unspecial := h.unspecial
  starts := by
    refine startsSpecial_append h.starts fun hnil => hstart ?_
    cases word with
    | none => exact h.startedEq
    | some w => exact absurd (congrArg some hnil) h.nonempty
  clean := by
    intro mark hmark
    rcases List.mem_append.mp hmark with hmark | hmark
    · exact h.clean mark hmark
    · exact hspecial mark hmark

/-- A quote or a literal character is never special. -/
theorem Matches.pushLiteral (marks : Word) (h : Matches quoting reading words word)
    (hne : marks ≠ []) (hkind : ∀ mark ∈ marks, mark.kind = .literal ∨ mark.kind = .quote) :
    Matches quoting' (reading.push (chars marks)) words (extend word marks) := by
  refine h.push marks hne (fun mark hmark => ?_) fun _ => ?_
  · rcases hkind mark hmark with hkind | hkind <;> simp [Mark.isSpecial, hkind]
  · match marks with
    | [] => rfl
    | ⟨c, kind⟩ :: rest =>
      rcases hkind _ List.mem_cons_self with hkind | hkind <;> cases hkind <;> rfl

/-- The end of a quote adds nothing to the word. -/
theorem Matches.close (h : Matches quoting reading words word) (hquoted : quoting ≠ .bare) :
    Matches quoting' (reading.push []) words word where
  wordsEq := h.wordsEq
  wordEq := by simp [Reading.push, h.wordEq]
  startedEq := (h.quoted hquoted).symm.trans h.startedEq
  quoted := fun _ => rfl
  nonempty := h.nonempty
  unspecial := h.unspecial
  starts := h.starts
  clean := h.clean

theorem escapable_of_kept (hkept : isKept c = false)
    (hc : ¬ (c = quotationMark ∨ c = backslash)) : isEscapable c = false ∧ c ≠ '\n' := by
  simp only [isKept, Bool.or_eq_false_iff, decide_eq_false_iff_not] at hkept
  simp only [isEscapable, Bool.or_eq_false_iff, decide_eq_false_iff_not]
  tauto

theorem Reads.agrees (words : List Word) (word : Option Word)
    (h : Reads quoting reading cs out) (hsafe : hazards quoting cs = [])
    (hmatch : Matches quoting reading words word) :
    ∃ found, lexFrom quoting words word cs = some found ∧ found.map value = out ∧
      Unspecial found := by
  induction h generalizing words word with
  | finish => exact ⟨_, rfl, hmatch.flush.wordsEq.symm, hmatch.flush.unspecial⟩
  | @blank reading c cs out hc rest ih =>
    rcases isBlank_or_feed hc with hblank | rfl
    · obtain ⟨hfeed, hsingle, hdouble, hescape⟩ := not_quote_of_blank hblank
      rw [hazards_bare hfeed hsingle hdouble hescape] at hsafe
      rw [lexFrom_blank hblank]
      exact ih _ _ hsafe hmatch.flush
    · rw [hazards_feed] at hsafe
      cases hsafe
  | openSingle rest ih =>
    rw [hazards_openSingle] at hsafe
    rw [lexFrom_openSingle]
    exact ih _ _ hsafe (hmatch.pushLiteral [⟨apostrophe, .quote⟩] (by simp) (by simp))
  | openDouble rest ih =>
    rw [hazards_openDouble] at hsafe
    rw [lexFrom_openDouble]
    exact ih _ _ hsafe (hmatch.pushLiteral [⟨quotationMark, .quote⟩] (by simp) (by simp))
  | @escape reading c cs out hc rest ih =>
    rw [lexFrom_escape hc]
    exact ih _ _ hsafe (hmatch.pushLiteral [⟨c, .literal⟩] (by simp) (by simp))
  | @plain reading c cs out hblank hfeed hsingle hdouble hescape hspecial hstart rest ih =>
    rw [hazards_bare hfeed hsingle hdouble hescape] at hsafe
    rw [lexFrom_bare hblank hsingle hdouble hescape]
    refine ih _ _ hsafe (hmatch.push [⟨c, .bare⟩] (by simp) ?_ fun hstarted => ?_)
    · simpa [Mark.isSpecial] using hspecial
    · simpa [startsSpecial] using hstart hstarted
  | closeSingle rest ih => exact ih _ _ hsafe (hmatch.close (by simp))
  | @inSingle reading c cs out hsingle rest ih =>
    rw [hazards_single hsingle] at hsafe
    rw [lexFrom_single hsingle]
    exact ih _ _ hsafe (hmatch.pushLiteral [⟨c, .literal⟩] (by simp) (by simp))
  | closeDouble rest ih =>
    rw [hazards_closeDouble] at hsafe
    rw [lexFrom_closeDouble]
    exact ih _ _ hsafe (hmatch.close (by simp))
  | @escapeDouble reading c cs out hc rest ih =>
    obtain ⟨hline, hescapable, hkept⟩ :
        c ≠ '\n' ∧ isEscapable c = true ∧ isKept c = false := by
      rcases hc with rfl | rfl <;> decide
    rw [hazards_doubleEscape hkept] at hsafe
    rw [lexFrom_doubleEscape hline hescapable]
    exact ih _ _ hsafe (hmatch.pushLiteral [⟨c, .literal⟩] (by simp) (by simp))
  | @keepDouble reading c cs out hc rest ih =>
    cases hkept : isKept c with
    | true =>
      rw [hazards_kept hkept] at hsafe
      cases hsafe
    | false =>
      obtain ⟨hescapable, hline⟩ := escapable_of_kept hkept hc
      rw [hazards_doubleEscape hkept] at hsafe
      rw [lexFrom_doubleKeep hline hescapable]
      exact ih _ _ hsafe
        (hmatch.pushLiteral [⟨backslash, .literal⟩, ⟨c, .literal⟩] (by simp) (by simp))
  | @inDouble reading c cs out hdouble hescape hactive rest ih =>
    rw [hazards_double hdouble hescape] at hsafe
    rw [lexFrom_double hdouble hescape hactive]
    exact ih _ _ hsafe (hmatch.pushLiteral [⟨c, .literal⟩] (by simp) (by simp))

/-! ## Counts -/

def Reading.chars (reading : Reading) : List Char :=
  reading.words.flatMap (·.toList) ++ reading.word

def readChars (words : List Word) (word : Option Word) : List Char :=
  words.flatMap Shell.chars ++ Shell.chars (word.getD [])

/-- A word that has not been started is empty. -/
def Reading.Ok (reading : Reading) : Prop := reading.started = false → reading.word = []

theorem chars_flush (h : reading.Ok) : reading.flush.chars = reading.chars ∧ reading.flush.Ok := by
  unfold Reading.flush
  split
  next =>
    refine ⟨?_, fun _ => rfl⟩
    simp [Reading.chars]
  next => exact ⟨rfl, h⟩

theorem chars_push {added : List Char} :
    (reading.push added).chars = reading.chars ++ added ∧ (reading.push added).Ok :=
  ⟨by simp [Reading.push, Reading.chars], fun h => by cases h⟩

theorem readChars_flush : readChars (words ++ word.toList) none = readChars words word := by
  cases word <;> simp [readChars, Shell.chars]

theorem readChars_extend : readChars words (extend word marks) =
    readChars words word ++ Shell.chars marks := by
  simp [readChars, extend, Shell.chars]

def Balanced (out : List String) (found : List Word) (shell parser : List Char)
    (ahead : List Hazard) : Prop :=
  (out.flatMap (·.toList)).count backslash + shell.count backslash =
      (found.flatMap Shell.chars).count backslash + parser.count backslash +
        ahead.count .keptEscape ∧
    (out.flatMap (·.toList)).count formFeed + shell.count formFeed + ahead.count .blankFeed =
      (found.flatMap Shell.chars).count formFeed + parser.count formFeed

section

variable {found : List Word} {shell parser added : List Char} {ahead : List Hazard}

theorem Balanced.push (h : Balanced out found (readChars words (extend word marks))
    (reading.push (Shell.chars marks)).chars ahead) :
    Balanced out found (readChars words word) reading.chars ahead := by
  simp only [Balanced, readChars_extend, chars_push.1, List.count_append] at h ⊢
  omega

theorem Balanced.feed (h : Balanced out found (shell ++ [formFeed]) parser ahead) :
    Balanced out found shell parser (.blankFeed :: ahead) := by
  have hne : formFeed ≠ backslash := by decide
  simp only [Balanced, List.count_append, List.count_cons, beq_self_eq_true, if_true,
    beq_iff_eq, reduceCtorEq, if_false, hne, List.count_nil] at h ⊢
  omega

theorem Balanced.kept (added : List Char)
    (h : Balanced out found (shell ++ added) (parser ++ (backslash :: added)) ahead) :
    Balanced out found shell parser (.keptEscape :: ahead) := by
  have hne : backslash ≠ formFeed := by decide
  simp only [Balanced, List.count_append, List.count_cons, beq_self_eq_true, if_true,
    beq_iff_eq, reduceCtorEq, if_false, hne] at h ⊢
  omega

theorem Balanced.keptLine (h : Balanced out found shell (parser ++ [backslash, '\n']) ahead) :
    Balanced out found shell parser (.keptEscape :: ahead) := by
  have hfeed : backslash ≠ formFeed ∧ '\n' ≠ formFeed ∧ '\n' ≠ backslash := by decide
  simp only [Balanced, List.count_append, List.count_cons, beq_self_eq_true, if_true,
    beq_iff_eq, reduceCtorEq, if_false, hfeed, List.count_nil] at h ⊢
  omega

end

/-- A kept character is escapable, or a line break. -/
theorem kept_cases (h : isKept c = true) : (c ≠ '\n' ∧ isEscapable c = true) ∨ c = '\n' := by
  simp only [isKept, Bool.or_eq_true, decide_eq_true_eq] at h
  rcases h with (rfl | rfl) | rfl
  · exact .inl (by decide)
  · exact .inl (by decide)
  · exact .inr rfl

theorem Reads.counts (words : List Word) (word : Option Word)
    (h : Reads quoting reading cs out) (hok : reading.Ok) :
    ∃ found, lexFrom quoting words word cs = some found ∧
      Balanced out found (readChars words word) reading.chars (hazards quoting cs) := by
  induction h generalizing words word with
  | @finish reading =>
    refine ⟨_, rfl, ?_⟩
    have hflush : reading.flush.word = [] := by
      unfold Reading.flush
      split
      next => rfl
      next hstarted => exact hok (by simpa using hstarted)
    have hchars := (chars_flush hok).1
    rw [Reading.chars, hflush, List.append_nil] at hchars
    have hread : readChars (words ++ word.toList) none = readChars words word := readChars_flush
    have hnone : readChars (words ++ word.toList) none =
        (words ++ word.toList).flatMap Shell.chars := List.append_nil _
    rw [Balanced, hchars, ← hread, hnone]
    simp only [hazards, List.count_nil]
    omega
  | @blank reading c cs out hc rest ih =>
    obtain ⟨hflush, hok'⟩ := chars_flush hok
    rcases isBlank_or_feed hc with hblank | rfl
    · obtain ⟨hfeed, hsingle, hdouble, hescape⟩ := not_quote_of_blank hblank
      obtain ⟨found, hfound, h⟩ := ih (words ++ word.toList) none hok'
      rw [readChars_flush, hflush] at h
      rw [hazards_bare hfeed hsingle hdouble hescape, lexFrom_blank hblank]
      exact ⟨found, hfound, h⟩
    · obtain ⟨found, hfound, h⟩ :=
        ih words (extend word [⟨formFeed, .bare⟩]) hok'
      rw [readChars_extend, hflush] at h
      rw [hazards_feed, lexFrom_bare (by decide) (by decide) (by decide) (by decide)]
      exact ⟨found, hfound, h.feed⟩
  | openSingle rest ih =>
    obtain ⟨found, hfound, h⟩ := ih words (extend word [⟨apostrophe, .quote⟩]) chars_push.2
    rw [hazards_openSingle, lexFrom_openSingle]
    exact ⟨found, hfound, h.push⟩
  | openDouble rest ih =>
    obtain ⟨found, hfound, h⟩ := ih words (extend word [⟨quotationMark, .quote⟩]) chars_push.2
    rw [hazards_openDouble, lexFrom_openDouble]
    exact ⟨found, hfound, h.push⟩
  | @escape reading c cs out hc rest ih =>
    obtain ⟨found, hfound, h⟩ := ih words (extend word [⟨c, .literal⟩]) chars_push.2
    rw [lexFrom_escape hc]
    exact ⟨found, hfound, h.push⟩
  | @plain reading c cs out hblank hfeed hsingle hdouble hescape hspecial hstart rest ih =>
    obtain ⟨found, hfound, h⟩ := ih words (extend word [⟨c, .bare⟩]) chars_push.2
    rw [hazards_bare hfeed hsingle hdouble hescape, lexFrom_bare hblank hsingle hdouble hescape]
    exact ⟨found, hfound, h.push⟩
  | closeSingle rest ih =>
    obtain ⟨found, hfound, h⟩ := ih words word chars_push.2
    rw [chars_push.1, List.append_nil] at h
    exact ⟨found, hfound, h⟩
  | @inSingle reading c cs out hsingle rest ih =>
    obtain ⟨found, hfound, h⟩ := ih words (extend word [⟨c, .literal⟩]) chars_push.2
    rw [hazards_single hsingle, lexFrom_single hsingle]
    exact ⟨found, hfound, h.push⟩
  | closeDouble rest ih =>
    obtain ⟨found, hfound, h⟩ := ih words word chars_push.2
    rw [chars_push.1, List.append_nil] at h
    rw [hazards_closeDouble, lexFrom_closeDouble]
    exact ⟨found, hfound, h⟩
  | @escapeDouble reading c cs out hc rest ih =>
    obtain ⟨hline, hescapable, hkept⟩ :
        c ≠ '\n' ∧ isEscapable c = true ∧ isKept c = false := by
      rcases hc with rfl | rfl <;> decide
    obtain ⟨found, hfound, h⟩ := ih words (extend word [⟨c, .literal⟩]) chars_push.2
    rw [hazards_doubleEscape hkept, lexFrom_doubleEscape hline hescapable]
    exact ⟨found, hfound, h.push⟩
  | @keepDouble reading c cs out hc rest ih =>
    cases hkept : isKept c with
    | false =>
      obtain ⟨hescapable, hline⟩ := escapable_of_kept hkept hc
      obtain ⟨found, hfound, h⟩ :=
        ih words (extend word [⟨backslash, .literal⟩, ⟨c, .literal⟩]) chars_push.2
      rw [hazards_doubleEscape hkept, lexFrom_doubleKeep hline hescapable]
      exact ⟨found, hfound, h.push⟩
    | true =>
      rw [hazards_kept hkept]
      rcases kept_cases hkept with ⟨hline, hescapable⟩ | rfl
      · obtain ⟨found, hfound, h⟩ := ih words (extend word [⟨c, .literal⟩]) chars_push.2
        rw [readChars_extend, chars_push.1] at h
        rw [lexFrom_doubleEscape hline hescapable]
        exact ⟨found, hfound, Balanced.kept [c] h⟩
      · obtain ⟨found, hfound, h⟩ := ih words word chars_push.2
        rw [chars_push.1] at h
        rw [lexFrom_doubleLine]
        exact ⟨found, hfound, h.keptLine⟩
  | @inDouble reading c cs out hdouble hescape hactive rest ih =>
    obtain ⟨found, hfound, h⟩ := ih words (extend word [⟨c, .literal⟩]) chars_push.2
    rw [hazards_double hdouble hescape, lexFrom_double hdouble hescape hactive]
    exact ⟨found, hfound, h.push⟩

/-! ## Agreement -/

def ShellAgrees (command : String) (words : List String) : Prop :=
  ∃ found, lex command.toList = some found ∧ found.map value = words ∧ Simple found ∧
    PlainAssignments found ∧ Unspecial found

def SimpleText (command : String) : Prop :=
  ∀ found, lex command.toList = some found → Simple found ∧ PlainAssignments found

theorem hazards_eq_nil {quoting : Quoting} (hkept : (hazards quoting cs).count .keptEscape = 0)
    (hfeed : (hazards quoting cs).count .blankFeed = 0) : hazards quoting cs = [] := by
  refine List.eq_nil_iff_forall_not_mem.mpr fun hazard hmem => ?_
  cases hazard with
  | keptEscape => exact List.count_eq_zero.mp hkept hmem
  | blankFeed => exact List.count_eq_zero.mp hfeed hmem

/-- A command that the parser accepts is read by the shell as the same words, as a simple command
without anything that is not literal, exactly if it has no backslash before a dollar sign, a
backquote or a line break in double quotes, no form feed outside quotes, and its words are those of
a simple command. -/
theorem parse_agrees_iff (command : String) (words : List String)
    (h : parseSimpleCommand command = .ok words) :
    ShellAgrees command words ↔ hazards .bare command.toList = [] ∧ SimpleText command := by
  obtain ⟨-, h⟩ := ensure_bind_ok.mp h
  have hreads := reads_of_parse h
  constructor
  · rintro ⟨found, hlex, hvalue, hsimple, htilde, -⟩
    refine ⟨?_, fun found' hlex' => ?_⟩
    · obtain ⟨found', hlex', hback, hfeed⟩ :=
        hreads.counts [] none fun _ => rfl
      obtain rfl : found' = found := Option.some.inj (hlex'.symm.trans hlex)
      have hchars : words.flatMap (·.toList) = found'.flatMap Shell.chars := by
        rw [← hvalue, List.flatMap_map]
        simp [value]
      have hread : readChars [] none = [] := rfl
      have hparser : (⟨[], [], false⟩ : Reading).chars = [] := rfl
      rw [hchars, hread, hparser, List.count_nil] at hback hfeed
      exact hazards_eq_nil (by omega) (by omega)
    · obtain rfl : found' = found := Option.some.inj (hlex'.symm.trans hlex)
      exact ⟨hsimple, htilde⟩
  · rintro ⟨hsafe, htext⟩
    obtain ⟨found, hlex, hvalue, hunspecial⟩ := hreads.agrees [] none hsafe
      ⟨rfl, rfl, rfl, by simp, by simp, by simp [Unspecial], rfl, by simp⟩
    obtain ⟨hsimple, htilde⟩ := htext found hlex
    exact ⟨found, hlex, hvalue, hsimple, htilde, hunspecial⟩

theorem parse_agrees_iff_view :
    parseSimpleCommand "forge-cli issue view '670'" = .ok ["forge-cli", "issue", "view", "670"] ∧
      (ShellAgrees "forge-cli issue view '670'" ["forge-cli", "issue", "view", "670"] ↔
        hazards .bare "forge-cli issue view '670'".toList = [] ∧
          SimpleText "forge-cli issue view '670'") := by
  have hparse : parseSimpleCommand "forge-cli issue view '670'" =
      .ok ["forge-cli", "issue", "view", "670"] := by decide +kernel
  exact ⟨hparse, parse_agrees_iff _ _ hparse⟩

/-- In double quotes the shell removes the backslash before a dollar sign, the parser keeps it. -/
theorem escaped_dollar_kept :
    parseSimpleCommand "echo \"\\$HOME\"" = .ok ["echo", "\\$HOME"] ∧
      ¬ ShellAgrees "echo \"\\$HOME\"" ["echo", "\\$HOME"] := by
  have hparse : parseSimpleCommand "echo \"\\$HOME\"" = .ok ["echo", "\\$HOME"] := by
    decide +kernel
  have hwords : (lex "echo \"\\$HOME\"".toList).map (fun found => found.map value) =
      some ["echo", "$HOME"] := by decide +kernel
  refine ⟨hparse, ?_⟩
  rintro ⟨found, hlex, hvalue, -⟩
  rw [hlex, Option.map_some, hvalue] at hwords
  exact absurd hwords (by decide)

end NilsCli.ReadOnly
