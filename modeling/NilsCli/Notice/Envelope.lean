import NilsCli.Lib.Guard
import NilsCli.Lib.RawLines

/-!
# Notice envelopes (`notice/envelope.rs`)

A notice is a header line and a body, which no reader changes.
-/

namespace NilsCli.Notice

open Lib List

variable {lowercase : Bool} {c : Char} {value field : List Char} {max : Nat}

inductive NoticeError where
  | invalidField (field : String)
  | emptyBody
  | doubleHeader

/-! ## Tokens -/

def isTokenAlpha (lowercase : Bool) (c : Char) : Bool :=
  if lowercase then isAsciiLower c else isAsciiLower c || isAsciiUpper c || isAsciiDigit c

def isTokenPart (lowercase : Bool) (c : Char) : Bool := isAsciiDigit c || isTokenAlpha lowercase c

def isSeparator (c : Char) : Bool := c = '.' || c = '_' || c = '-'

/-- The loop of `token`, which knows whether a separator was last. -/
def tokenFrom (lowercase : Bool) : Bool → List Char → Bool
  | separator, [] => !separator
  | separator, c :: cs =>
    if isTokenPart lowercase c then tokenFrom lowercase false cs
    else if isSeparator c && !separator then tokenFrom lowercase true cs
    else false

/-- `token`. No byte of a character outside ASCII passes. -/
def token (value : List Char) (max : Nat) (lowercase : Bool) : Bool :=
  match value with
  | [] => false
  | c :: cs => byteLen value ≤ max && isTokenAlpha lowercase c && tokenFrom lowercase false cs

def isTokenChar (c : Char) : Bool :=
  isAsciiLower c || isAsciiUpper c || isAsciiDigit c || isSeparator c

theorem isTokenChar_of_part (h : isTokenPart lowercase c = true) :
    isTokenChar c = true := by
  unfold isTokenPart isTokenAlpha at h
  unfold isTokenChar
  split at h <;> simp only [Bool.or_eq_true] at h ⊢ <;> tauto

theorem tokenFrom_chars {separator : Bool} {cs : List Char}
    (h : tokenFrom lowercase separator cs = true) : ∀ c ∈ cs, isTokenChar c = true := by
  induction cs generalizing separator with
  | nil => simp
  | cons c cs ih =>
    rw [tokenFrom] at h
    refine List.forall_mem_cons.mpr ?_
    split at h
    next hpart => exact ⟨isTokenChar_of_part hpart, ih h⟩
    next =>
      split at h
      next hsep =>
        rw [Bool.and_eq_true] at hsep
        exact ⟨by simp [isTokenChar, hsep.1], ih h⟩
      next => cases h

theorem token_chars (h : token value max lowercase = true) : ∀ c ∈ value, isTokenChar c = true := by
  cases value with
  | nil => simp
  | cons c cs =>
    simp only [token, Bool.and_eq_true] at h
    have hpart : isTokenPart lowercase c = true := by rw [isTokenPart, h.1.2, Bool.or_true]
    exact List.forall_mem_cons.mpr ⟨isTokenChar_of_part hpart, tokenFrom_chars h.2⟩

theorem token_byteLen (h : token value max lowercase = true) : byteLen value ≤ max := by
  cases value with
  | nil => cases h
  | cons c cs =>
    simp only [token, Bool.and_eq_true, decide_eq_true_eq] at h
    exact h.1.1

/-- A character of a token is in ASCII and ends neither a field nor a line. -/
theorem plain_of_isTokenChar (h : isTokenChar c = true) :
    isAscii c = true ∧ c ≠ ' ' ∧ c ≠ '\n' := by
  refine ⟨?_, fun heq => ?_, fun heq => ?_⟩
  rotate_left
  · rw [heq] at h
    cases h
  · rw [heq] at h
    cases h
  have hle : c.toNat ≤ 'z'.toNat := by
    simp only [isTokenChar, isAsciiLower, isAsciiUpper, isAsciiDigit, charIn, isSeparator,
      Bool.or_eq_true, decide_eq_true_eq] at h
    rcases h with ((h | h) | h) | ((rfl | rfl) | rfl)
    · exact h.2
    · exact h.2.trans (by decide)
    · exact h.2.trans (by decide)
    all_goals decide
  exact decide_eq_true (hle.trans_lt (by decide))

/-! ## Envelopes -/

/-- Validated metadata. -/
@[ext] structure NoticeEnvelope where
  kind : List Char
  source : List Char
  id : Option (List Char)
  kind_token : token kind 48 true = true
  source_token : token source 64 true = true
  id_token : ∀ value ∈ id, token value 96 false = true

def NoticeEnvelope.new (kind source : List Char) (id : Option (List Char)) :
    Except NoticeError NoticeEnvelope :=
  if hkind : token kind 48 true = true then
    if hsource : token source 64 true = true then
      if hid : ∀ value ∈ id, token value 96 false = true then
        .ok ⟨kind, source, id, hkind, hsource, hid⟩
      else .error (.invalidField "id")
    else .error (.invalidField "source")
  else .error (.invalidField "kind")

theorem NoticeEnvelope.new_self (notice : NoticeEnvelope) :
    NoticeEnvelope.new notice.kind notice.source notice.id = .ok notice := by
  rw [NoticeEnvelope.new, dif_pos notice.kind_token, dif_pos notice.source_token,
    dif_pos notice.id_token]

structure ParsedNotice where
  metadata : NoticeEnvelope
  body : List Char

def headerMark : List Char := "<!-- agent-notice:".toList

def validateBody (body : List Char) : Except NoticeError Unit := do
  ensure (body ≠ []) .emptyBody
  ensure (headerMark.isPrefixOf body = false) .doubleHeader

def versionMark : List Char := "<!-- agent-notice:v1 ".toList
def kindMark : List Char := "kind=".toList
def sourceMark : List Char := "source=".toList
def idMark : List Char := "id=".toList
def headerEnd : List Char := " -->".toList

/-- The fields as they are written. -/
def NoticeEnvelope.fields (notice : NoticeEnvelope) : List (List Char) :=
  (kindMark ++ notice.kind) :: (sourceMark ++ notice.source) ::
    (notice.id.map (idMark ++ ·)).toList

def NoticeEnvelope.header (notice : NoticeEnvelope) : List Char :=
  versionMark ++ [' '].intercalate notice.fields ++ headerEnd

def NoticeEnvelope.encode (notice : NoticeEnvelope) (body : List Char) :
    Except NoticeError (List Char) := do
  validateBody body
  .ok (notice.header ++ ['\n', '\n'] ++ body)

/-- `str::split_once` at a character. -/
def splitOnceAt (sep : Char) : List Char → Option (List Char × List Char)
  | [] => none
  | c :: cs =>
    if c = sep then some ([], cs)
    else (splitOnceAt sep cs).map fun parts => (c :: parts.1, parts.2)

/-- The fields of a header, which must be these and no others. -/
def parseFields (fields : List (List Char)) : Option NoticeEnvelope := do
  let kind ← (← fields[0]?).dropPrefix? kindMark
  let source ← (← fields[1]?).dropPrefix? sourceMark
  let id ← match fields[2]? with
    | some field => (field.dropPrefix? idMark).map some
    | none => some none
  if fields[3]?.isSome then none
  else (NoticeEnvelope.new kind source id).toOption

def parseHeader (header : List Char) : Option NoticeEnvelope := do
  let header := (header.dropSuffix? ['\r']).getD header
  if header.all isAscii = false ∨ 512 < byteLen header then none
  else
    let fields ← header.dropPrefix? versionMark
    let fields ← fields.dropSuffix? headerEnd
    parseFields (fields.splitOn ' ')

def parseNotice (input : List Char) : Option ParsedNotice := do
  let (header, rest) ← splitOnceAt '\n' input
  let metadata ← parseHeader header
  let body := ((rest.dropPrefix? ['\r', '\n']).orElse fun _ => rest.dropPrefix? ['\n']).getD rest
  (validateBody body).toOption
  some ⟨metadata, body⟩

/-! ## Round trips -/

theorem mem_intersperse {sep part : List Char} {parts : List (List Char)}
    (h : part ∈ parts.intersperse sep) : part = sep ∨ part ∈ parts := by
  induction parts with
  | nil => cases h
  | cons first parts ih =>
    cases parts with
    | nil => exact .inr h
    | cons second parts =>
      rw [intersperse_cons_cons, mem_cons, mem_cons] at h
      rcases h with rfl | rfl | h
      · exact .inr mem_cons_self
      · exact .inl rfl
      · exact (ih h).imp_right (mem_cons_of_mem _)

theorem splitOnceAt_append {sep : Char} {front : List Char} (h : sep ∉ front) (rest : List Char) :
    splitOnceAt sep (front ++ sep :: rest) = some (front, rest) := by
  induction front with
  | nil => exact if_pos rfl
  | cons c front ih =>
    rw [mem_cons, not_or] at h
    rw [cons_append, splitOnceAt, if_neg (Ne.symm h.1), ih h.2]
    rfl

theorem dropPrefix?_append (pre rest : List Char) : (pre ++ rest).dropPrefix? pre = some rest :=
  List.dropPrefix?_append_of_beq rest (beq_self_eq_true pre)

theorem dropSuffix?_append (front suffix : List Char) :
    (front ++ suffix).dropSuffix? suffix = some front :=
  List.dropSuffix?_eq_some_iff.mpr ⟨suffix, rfl, beq_self_eq_true suffix⟩

namespace NoticeEnvelope

variable (notice : NoticeEnvelope)

/-- A field holds a mark and a token. -/
theorem exists_token_of_mem (h : field ∈ notice.fields) :
    ∃ mark ∈ [kindMark, sourceMark, idMark], ∃ value, (∀ c ∈ value, isTokenChar c = true) ∧
      field = mark ++ value := by
  simp only [fields, mem_cons, Option.mem_toList, Option.map_eq_some_iff] at h
  rcases h with rfl | rfl | ⟨value, hvalue, rfl⟩
  · exact ⟨kindMark, by simp, _, token_chars notice.kind_token, rfl⟩
  · exact ⟨sourceMark, by simp, _, token_chars notice.source_token, rfl⟩
  · exact ⟨idMark, by simp, _, token_chars (notice.id_token value hvalue), rfl⟩

theorem plain_of_mem_field (h : field ∈ notice.fields) :
    ∀ c ∈ field, isAscii c = true ∧ c ≠ ' ' ∧ c ≠ '\n' := by
  obtain ⟨mark, hmark, value, hvalue, rfl⟩ := notice.exists_token_of_mem h
  have hplain : ([kindMark, sourceMark, idMark].all fun mark =>
      mark.all fun c => isAscii c && (c != ' ' && c != '\n')) = true := by decide
  simp only [all_eq_true, Bool.and_eq_true, bne_iff_ne] at hplain
  intro c hc
  rcases List.mem_append.mp hc with hc | hc
  · exact hplain mark hmark c hc
  · exact plain_of_isTokenChar (hvalue c hc)

theorem splitOn_fields : ([' '].intercalate notice.fields).splitOn ' ' = notice.fields :=
  splitOn_intercalate ' ' (fun _ hfield hc => (notice.plain_of_mem_field hfield _ hc).2.1 rfl)
    (cons_ne_nil _ _)

theorem parseFields_fields : parseFields notice.fields = some notice := by
  have hself := notice.new_self
  cases hid : notice.id with
  | none =>
    rw [hid] at hself
    simp [parseFields, fields, hid, dropPrefix?_append, hself, Except.toOption]
  | some value =>
    rw [hid] at hself
    simp [parseFields, fields, hid, dropPrefix?_append, hself, Except.toOption]

theorem line_eq : [' '].intercalate notice.fields = kindMark ++ (notice.kind ++ ' ' :: (sourceMark ++
    (notice.source ++ (notice.id.map (' ' :: idMark ++ ·)).getD []))) := by
  cases hid : notice.id <;> simp [fields, hid, intercalate]

theorem header_chars : ∀ c ∈ notice.header, isAscii c = true ∧ c ≠ '\n' := by
  have hplain : ((versionMark ++ ' ' :: headerEnd).all fun c => isAscii c && c != '\n') = true := by
    decide
  simp only [all_eq_true, Bool.and_eq_true, bne_iff_ne] at hplain
  intro c hc
  simp only [header, mem_append] at hc
  rcases hc with (hc | hc) | hc
  · exact hplain c (by simp [hc])
  · obtain ⟨part, hpart, hc⟩ := List.mem_flatten.mp hc
    rcases mem_intersperse hpart with rfl | hpart
    · obtain rfl := List.mem_singleton.mp hc
      decide
    · have hfield := notice.plain_of_mem_field hpart c hc
      exact ⟨hfield.1, hfield.2.2⟩
  · exact hplain c (by simp [hc])

theorem header_byteLen : byteLen notice.header ≤ 512 := by
  have hkind := token_byteLen notice.kind_token
  have hsource := token_byteLen notice.source_token
  have hid : byteLen ((notice.id.map (' ' :: idMark ++ ·)).getD []) ≤ 100 := by
    cases hid : notice.id with
    | none => exact Nat.zero_le _
    | some value =>
      have hvalue := token_byteLen (notice.id_token value hid)
      have hmark : byteLen (' ' :: idMark) = 4 := by decide
      simp only [Option.map_some, Option.getD_some, byteLen_append, hmark]
      omega
  have hmarks : byteLen versionMark = 21 ∧ byteLen headerEnd = 4 ∧ byteLen kindMark = 5 ∧
      byteLen sourceMark = 7 ∧ ' '.utf8Size = 1 := by decide
  simp only [header, line_eq, byteLen_append, byteLen]
  omega

theorem parseHeader_header : parseHeader notice.header = some notice := by
  have hascii : notice.header.all isAscii = true :=
    List.all_eq_true.mpr fun c hc => (notice.header_chars c hc).1
  have hreturn : notice.header.dropSuffix? ['\r'] = none := by
    refine Option.eq_none_iff_forall_ne_some.mpr fun front hfront => ?_
    obtain ⟨last, heq, hlast⟩ := List.dropSuffix?_eq_some_iff.mp hfront
    rw [eq_of_beq hlast] at heq
    have hend := congrArg getLast? heq
    rw [getLast?_concat, header, getLast?_append] at hend
    cases hend
  have hlen := notice.header_byteLen
  unfold parseHeader
  rw [hreturn, Option.getD_none, if_neg (by simp [hascii]; omega)]
  rw [header, append_assoc, dropPrefix?_append]
  simp only [bind, Option.bind]
  rw [dropSuffix?_append]
  simp only
  rw [splitOn_fields, parseFields_fields]

end NoticeEnvelope

theorem parseNotice_encode {notice : NoticeEnvelope} {body text : List Char}
    (h : notice.encode body = .ok text) : parseNotice text = some ⟨notice, body⟩ := by
  obtain ⟨_, hbody, htext⟩ := bind_eq_ok.mp h
  cases htext
  have hline : '\n' ∉ notice.header := fun hmem => (notice.header_chars _ hmem).2 rfl
  have hlines : (('\n' :: body).dropPrefix? ['\r', '\n']).orElse
      (fun _ => ('\n' :: body).dropPrefix? ['\n']) = some body := by
    simp [List.dropPrefix?]
  rw [parseNotice, append_assoc, cons_append, singleton_append,
    splitOnceAt_append hline]
  simp only [bind, Option.bind, notice.parseHeader_header, hlines, Option.getD_some, hbody,
    Except.toOption]

/-- What was encoded is read back with its metadata and its body; what was read is encoded, and read
back from that. -/
theorem notice_round_trip :
    (∀ (notice : NoticeEnvelope) (body text : List Char), notice.encode body = .ok text →
      parseNotice text = some ⟨notice, body⟩) ∧
    ∀ (input : List Char) (parsed : ParsedNotice), parseNotice input = some parsed →
      ∃ text, parsed.metadata.encode parsed.body = .ok text ∧ parseNotice text = some parsed := by
  refine ⟨fun _ _ _ => parseNotice_encode, fun input parsed h => ?_⟩
  simp only [parseNotice, bind, Option.bind_eq_some_iff] at h
  obtain ⟨⟨header, rest⟩, -, metadata, -, _, hbody, h⟩ := h
  cases h
  have hencode : metadata.encode _ = .ok _ := bind_eq_ok.mpr ⟨(), ok_of_toOption hbody, rfl⟩
  exact ⟨_, hencode, parseNotice_encode hencode⟩

def hookNotice : NoticeEnvelope := ⟨"report".toList, "hook".toList, none, rfl, rfl, nofun⟩

theorem notice_round_trip_hook :
    parseNotice "<!-- agent-notice:v1 kind=report source=hook -->\n\n\n".toList =
      some ⟨hookNotice, ['\n']⟩ := notice_round_trip.1 hookNotice _ _ rfl

end NilsCli.Notice
