import NilsCli.Lib.Guard
import NilsCli.Lib.Json
import NilsCli.Lib.Lines
import NilsCli.Lib.ListUpdate

/-!
# The ledger of mailbox read events

`read_events/store.rs`: one file per conversation, one JSON line per change, only appended to.
-/

namespace NilsCli.Coordination.ReadEvents

open Lib List

def maxLedgerBytes : Nat := 32 * 1024 * 1024

def newline : UInt8 := 10

inductive Action
  | read
  | acknowledge
  deriving DecidableEq

/-- What the registry says about the message (`Source`); `V` is the type of JSON values. -/
structure Source (V : Type) where
  messageId : String
  sender : V
  category : String
  body : String

/-- One line of the ledger. -/
inductive Line (V : Type)
  | create (messageId : String) (sender : V) (category body : String) (anchor : Nat)
      (createdAtMs : Int) (acknowledged : Bool)
  | update (messageId : String) (readAtMs acknowledgedAtMs : Option Int)

/-- A folded event. -/
structure Event (V : Type) where
  messageId : String
  sender : V
  category : String
  body : String
  anchor : Nat
  createdAtMs : Int
  readAtMs : Option Int
  acknowledgedAtMs : Option Int
  revision : Nat

inductive LedgerError
  | tooLarge
  | malformed

/-- How a line is written (`serde_json::to_vec`) and read (`serde_json::from_slice`). -/
structure LineFormat (V : Type) where
  encode : Line V → List UInt8
  decode : List UInt8 → Option (Line V)
  decode_encode : ∀ line, decode (encode line) = some line
  newline_notMem : ∀ line, newline ∉ encode line
  head_encode : ∀ line, (encode line).head? = some 0x7b
  decode_glued : ∀ front line, front.head? = some 0x7b → decode (front ++ encode line) = none

variable {V : Type}

/-! ## Reading -/

def Event.update (event : Event V) (readAtMs acknowledgedAtMs : Option Int) : Event V :=
  let event := if event.readAtMs.isNone ∧ readAtMs.isSome then
      { event with readAtMs := readAtMs, revision := event.revision + 1 }
    else event
  if event.acknowledgedAtMs.isNone ∧ acknowledgedAtMs.isSome then
    { event with acknowledgedAtMs := acknowledgedAtMs, revision := event.revision + 1 }
  else event

/-- One turn of the loop of `fold`. -/
def applyLine (events : List (Event V)) : Line V → List (Event V)
  | .create messageId sender category body anchor createdAtMs acknowledged =>
    if events.any (·.messageId = messageId) then events
    else events ++ [{
      messageId, sender, category, body, anchor, createdAtMs
      readAtMs := if acknowledged then none else some createdAtMs
      acknowledgedAtMs := if acknowledged then some createdAtMs else none
      revision := 1 }]
  | .update messageId readAtMs acknowledgedAtMs =>
    updateFirst (·.messageId = messageId) (·.update readAtMs acknowledgedAtMs) events

def fold (format : LineFormat V) (bytes : List UInt8) : Except LedgerError (List (Event V)) :=
  (finished newline bytes).foldlM (fun events raw => do
    let line ← orErr (format.decode raw) .malformed
    return applyLine events line) []

def readAll (file : List UInt8) : Except LedgerError (List UInt8) :=
  if file.length > maxLedgerBytes then .error .tooLarge else .ok file

/-- `load`; a ledger that does not exist is empty. -/
def load (format : LineFormat V) (file : List UInt8) : Except LedgerError (List (Event V)) := do
  fold format (← readAll file)

/-! ## Recording -/

structure Call (V : Type) where
  source : Source V
  anchor : Nat
  action : Action
  nowMs : Int
  dies : Option Nat

def lineFor (call : Call V) (events : List (Event V)) : Option (Line V) :=
  match events.find? (·.messageId = call.source.messageId), call.action with
  | none, action => some (.create call.source.messageId call.source.sender call.source.category
      call.source.body call.anchor call.nowMs (action = .acknowledge))
  | some event, .read =>
    if event.readAtMs.isNone then some (.update call.source.messageId (some call.nowMs) none)
    else none
  | some event, .acknowledge =>
    if event.acknowledgedAtMs.isNone then
      some (.update call.source.messageId none (some call.nowMs))
    else none

/-- `record`, up to the write. -/
def record (format : LineFormat V) (call : Call V) (file : List UInt8) :
    Except LedgerError (Option (Line V)) := do
  let events ← load format file
  return lineFor call events

structure Ledger (V : Type) where
  file : List UInt8
  completed : List (Line V)

/-- What a call leaves. -/
def append (format : LineFormat V) (call : Call V) (ledger : Ledger V) : Ledger V :=
  match record format call ledger.file, call.dies with
  | .ok (some line), none =>
    { file := ledger.file ++ (format.encode line ++ [newline])
      completed := ledger.completed ++ [line] }
  | .ok (some line), some written =>
    { ledger with file := ledger.file ++ (format.encode line).take written }
  | .ok none, _ => ledger
  | .error _, _ => ledger

/-- The ledger after these calls. -/
def appendAll (format : LineFormat V) (calls : List (Call V)) (ledger : Ledger V) : Ledger V :=
  calls.foldl (fun ledger call => append format call ledger) ledger

/-! ## Readable ledgers -/

/-- The id of the event that a line creates. -/
def Line.createdId : Line V → Option String
  | .create messageId .. => some messageId
  | .update .. => none

def Readable (format : LineFormat V) (ledger : Ledger V) : Prop :=
  ∃ events, fold format ledger.file = .ok events ∧ events = ledger.completed.foldl applyLine [] ∧
    events.map (·.messageId) = ledger.completed.filterMap Line.createdId

/-- The time that a call sets is set already. -/
def Recorded (call : Call V) (events : List (Event V)) : Prop :=
  ∃ event, events.find? (·.messageId = call.source.messageId) = some event ∧
    match call.action with
    | .read => event.readAtMs.isSome
    | .acknowledge => event.acknowledgedAtMs.isSome

def KeepsApart (format : LineFormat V) (call : Call V) (ledger : Ledger V) : Prop :=
  call.dies.isSome ∨ unfinished newline ledger.file = [] ∨
    ∀ events, load format ledger.file = .ok events → Recorded call events

def AllKeepApart (format : LineFormat V) : List (Call V) → Ledger V → Prop
  | [], _ => True
  | call :: calls, ledger => KeepsApart format call ledger ∧
    AllKeepApart format calls (append format call ledger)

variable {format : LineFormat V} {ledger : Ledger V} {call : Call V}

theorem foldlM_decode_encode (lines : List (Line V)) (events : List (Event V)) :
    (lines.map format.encode).foldlM (fun events raw => do
      let line ← orErr (format.decode raw) LedgerError.malformed
      return applyLine events line) events = .ok (lines.foldl applyLine events) := by
  induction lines generalizing events with
  | nil => rfl
  | cons line lines ih =>
    rw [map_cons, foldlM_cons, format.decode_encode]
    exact ih (applyLine events line)

theorem encode_spec (line : Line V) : newline ∉ format.encode line ∧ format.encode line ≠ [] := by
  refine ⟨format.newline_notMem line, fun h => ?_⟩
  have hhead := format.head_encode line
  rw [h] at hhead
  cases hhead

/-- The fold of completed lines and a torn one. -/
theorem fold_terminated (lines : List (Line V)) {tail : List UInt8} (htail : newline ∉ tail) :
    fold format (terminated newline (lines.map format.encode) ++ tail) =
      .ok (lines.foldl applyLine []) := by
  rw [fold, finished_terminated_append ?_ htail]
  · exact foldlM_decode_encode lines []
  · intro raw hraw
    obtain ⟨line, -, rfl⟩ := List.mem_map.mp hraw
    exact encode_spec line

/-- A finished line that does not parse fails the fold. -/
theorem fold_malformed (lines : List (Line V)) {raw : List UInt8} (hraw : newline ∉ raw)
    (hne : raw ≠ []) (hdecode : format.decode raw = none) :
    fold format (terminated newline (lines.map format.encode ++ [raw])) = .error .malformed := by
  have hrecords : ∀ r ∈ lines.map format.encode ++ [raw], newline ∉ r ∧ r ≠ [] := by
    intro r hr
    rcases List.mem_append.mp hr with hr | hr
    · obtain ⟨line, -, rfl⟩ := List.mem_map.mp hr
      exact encode_spec line
    · rw [List.mem_singleton.mp hr]
      exact ⟨hraw, hne⟩
  have hfinished : finished newline (terminated newline (lines.map format.encode ++ [raw])) =
      lines.map format.encode ++ [raw] := by
    rw [← append_nil (terminated newline _)]
    exact finished_terminated_append hrecords not_mem_nil
  rw [fold, hfinished, foldlM_append, foldlM_decode_encode, ok_bind, foldlM_cons,
    hdecode]
  rfl

/-! ## The appended line -/

theorem lineFor_eq_none_iff {events : List (Event V)} :
    lineFor call events = none ↔ Recorded call events := by
  unfold lineFor Recorded
  cases hfind : events.find? (·.messageId = call.source.messageId) with
  | none => simp
  | some event =>
    cases call.action with
    | read => simp [Option.isSome_iff_ne_none]
    | acknowledge => simp [Option.isSome_iff_ne_none]

theorem update_messageId (event : Event V) (readAtMs acknowledgedAtMs : Option Int) :
    (event.update readAtMs acknowledgedAtMs).messageId = event.messageId := by
  simp only [Event.update]
  split <;> split <;> rfl

theorem map_messageId_applyLine_update (events : List (Event V)) (messageId : String)
    (readAtMs acknowledgedAtMs : Option Int) :
    (applyLine events (.update messageId readAtMs acknowledgedAtMs)).map (·.messageId) =
      events.map (·.messageId) := by
  rw [applyLine]
  induction events with
  | nil => rfl
  | cons event events ih =>
    rw [updateFirst]
    split
    · simp [update_messageId]
    · simp [ih]

theorem map_messageId_applyLine {events : List (Event V)} {line : Line V}
    (h : lineFor call events = some line) :
    (applyLine events line).map (·.messageId) =
      events.map (·.messageId) ++ line.createdId.toList := by
  unfold lineFor at h
  split at h
  next hnone =>
    obtain rfl := Option.some.inj h
    rw [List.find?_eq_none] at hnone
    have hany : ¬events.any (·.messageId = call.source.messageId) := by simpa using hnone
    rw [applyLine, if_neg hany]
    simp [Line.createdId]
  next =>
    split at h
    · obtain rfl := Option.some.inj h
      simp [map_messageId_applyLine_update, Line.createdId]
    · cases h
  next =>
    split at h
    · obtain rfl := Option.some.inj h
      simp [map_messageId_applyLine_update, Line.createdId]
    · cases h

/-! ## Tidy ledgers -/

structure Tidy (format : LineFormat V) (ledger : Ledger V) : Prop where
  file : ∃ tail, ledger.file = terminated newline (ledger.completed.map format.encode) ++ tail ∧
    newline ∉ tail ∧ (tail = [] ∨ tail.head? = some 0x7b)
  ids : (ledger.completed.foldl applyLine []).map (·.messageId) =
    ledger.completed.filterMap Line.createdId

theorem tidy_empty : Tidy format ⟨[], []⟩ :=
  ⟨⟨[], rfl, not_mem_nil, .inl rfl⟩, rfl⟩

theorem Tidy.fold_eq (h : Tidy format ledger) :
    fold format ledger.file = .ok (ledger.completed.foldl applyLine []) := by
  obtain ⟨tail, hfile, htail, -⟩ := h.file
  rw [hfile]
  exact fold_terminated ledger.completed htail

theorem Tidy.readable (h : Tidy format ledger) : Readable format ledger :=
  ⟨_, h.fold_eq, rfl, h.ids⟩

theorem Tidy.lineFor_eq (h : Tidy format ledger) {line : Line V}
    (hrecord : record format call ledger.file = .ok (some line)) :
    lineFor call (ledger.completed.foldl applyLine []) = some line := by
  obtain ⟨events, hload, hpure⟩ := bind_eq_ok.mp hrecord
  obtain ⟨bytes, hread, hfold⟩ := bind_eq_ok.mp hload
  have hbytes : ledger.file = bytes := by
    unfold readAll at hread
    split at hread
    · cases hread
    · exact Except.ok.inj hread
  rw [← hbytes, h.fold_eq] at hfold
  rw [Except.ok.inj hfold]
  exact Except.ok.inj hpure

/-- A line that is torn, or torn again, opens with a brace. -/
theorem head_torn {tail : List UInt8} (htail : tail = [] ∨ tail.head? = some 0x7b)
    (line : Line V) (written : Nat) :
    tail ++ (format.encode line).take written = [] ∨
      (tail ++ (format.encode line).take written).head? = some 0x7b := by
  rcases htail with rfl | hhead
  · cases written with
    | zero => exact .inl rfl
    | succ written =>
      right
      rw [nil_append, List.head?_take, if_neg (by omega)]
      exact format.head_encode line
  · exact .inr (by rw [List.head?_append, hhead]; rfl)

theorem tidy_append (h : Tidy format ledger) (hcall : KeepsApart format call ledger) :
    Tidy format (append format call ledger) := by
  obtain ⟨tail, hfile, htail, hhead⟩ := h.file
  unfold append
  split
  next line hrecord hdies =>
    obtain ⟨events, hload, hline⟩ := bind_eq_ok.mp hrecord
    have hclean : tail = [] := by
      rcases hcall with hsome | hend | hnothing
      · rw [hdies] at hsome
        cases hsome
      · rwa [hfile, unfinished_terminated_append _ htail] at hend
      · have hnone := lineFor_eq_none_iff.mpr (hnothing events hload)
        rw [hnone] at hline
        cases hline
    refine ⟨⟨[], ?_, not_mem_nil, .inl rfl⟩, ?_⟩
    · rw [hfile, hclean, append_nil, map_append, terminated_append, append_nil]
      exact congrArg _ (terminated_singleton newline _).symm
    · rw [foldl_append, foldl_cons, foldl_nil, filterMap_append,
        map_messageId_applyLine (h.lineFor_eq hrecord), h.ids]
      cases hid : line.createdId <;> simp [hid]
  next line written hrecord hdies =>
    refine ⟨⟨tail ++ (format.encode line).take written, ?_, ?_, ?_⟩, h.ids⟩
    · rw [hfile, append_assoc]
    · rw [mem_append, not_or]
      exact ⟨htail, fun hmem => format.newline_notMem line (mem_of_mem_take hmem)⟩
    · exact head_torn hhead line written
  next => exact h
  next => exact h

theorem fold_append_of_not_keepsApart (h : Tidy format ledger)
    (hcall : ¬KeepsApart format call ledger) :
    fold format (append format call ledger).file = .error .malformed := by
  obtain ⟨tail, hfile, htail, hhead⟩ := h.file
  simp only [KeepsApart, not_or, not_forall, Bool.not_eq_true, Option.isSome_eq_false_iff,
    Option.isNone_iff_eq_none] at hcall
  obtain ⟨hdies, htorn, events, hload, hnew⟩ := hcall
  rw [hfile, unfinished_terminated_append _ htail] at htorn
  obtain ⟨line, hline⟩ := Option.ne_none_iff_exists'.mp (mt lineFor_eq_none_iff.mp hnew)
  have hrecord : record format call ledger.file = .ok (some line) := by
    rw [record, hload, ← hline]
    rfl
  have hfile' : (append format call ledger).file =
      terminated newline (ledger.completed.map format.encode ++ [tail ++ format.encode line]) := by
    rw [append, hrecord, hdies]
    simp only [hfile, terminated_append, terminated_singleton, append_assoc]
  rw [hfile']
  refine fold_malformed ledger.completed ?_ ?_ ?_
  · rw [mem_append, not_or]
    exact ⟨htail, format.newline_notMem line⟩
  · simp [htorn]
  · exact format.decode_glued tail line (hhead.resolve_left htorn)

/-- An unreadable ledger is never written again. -/
theorem append_of_unreadable {e : LedgerError} (h : fold format ledger.file = .error e) :
    append format call ledger = ledger := by
  have hrecord : ∃ e, record format call ledger.file = .error e := by
    by_cases hsize : ledger.file.length > maxLedgerBytes
    · exact ⟨.tooLarge, by simp [record, load, readAll, hsize, Bind.bind, Except.bind]⟩
    · exact ⟨e, by simp [record, load, readAll, hsize, h, Bind.bind, Except.bind]⟩
  obtain ⟨e', he'⟩ := hrecord
  rw [append, he']

theorem appendAll_of_unreadable {e : LedgerError} (h : fold format ledger.file = .error e)
    (calls : List (Call V)) : appendAll format calls ledger = ledger := by
  induction calls with
  | nil => rfl
  | cons call calls ih =>
    rw [appendAll, foldl_cons, append_of_unreadable h]
    exact ih

theorem readable_appendAll_iff (h : Tidy format ledger) (calls : List (Call V)) :
    Readable format (appendAll format calls ledger) ↔ AllKeepApart format calls ledger := by
  induction calls generalizing ledger with
  | nil => exact ⟨fun _ => trivial, fun _ => h.readable⟩
  | cons call calls ih =>
    by_cases hcall : KeepsApart format call ledger
    · rw [AllKeepApart, and_iff_right hcall]
      exact ih (tidy_append h hcall)
    · have hbad := fold_append_of_not_keepsApart h hcall
      refine ⟨fun ⟨events, hfold, _⟩ => ?_, fun hall => absurd hall.1 hcall⟩
      rw [appendAll, foldl_cons] at hfold
      have hstuck := appendAll_of_unreadable hbad calls
      rw [appendAll] at hstuck
      rw [hstuck, hbad] at hfold
      cases hfold

/-- The ledger is readable after these calls, with every completed line in order, exactly if no call
completed its line behind a torn one. -/
theorem ledger_readable_iff (format : LineFormat V) (calls : List (Call V)) :
    Readable format (appendAll format calls ⟨[], []⟩) ↔ AllKeepApart format calls ⟨[], []⟩ :=
  readable_appendAll_iff tidy_empty calls

/-! ## JSON lines -/

def createJson : String × String × String × String × Nat × Int × Bool → List UInt8 :=
  fun p => ascii "\"op\":\"create\",\"message_id\":" ++ writeString p.1 ++
    (ascii ",\"sender\":" ++ writeString p.2.1 ++
    (ascii ",\"category\":" ++ writeString p.2.2.1 ++
    (ascii ",\"body\":" ++ writeString p.2.2.2.1 ++
    (ascii ",\"anchor\":" ++ (writeNat p.2.2.2.2.1 ++ ascii ",") ++
    (ascii "\"created_at_ms\":" ++ (writeInt p.2.2.2.2.2.1 ++ ascii ",") ++
    (ascii "\"acknowledged\":" ++ (writeBool p.2.2.2.2.2.2 ++ ascii "\x7d")))))))

def updateJson : String × Option Int × Option Int → List UInt8 :=
  fun p => ascii "\"op\":\"update\",\"message_id\":" ++ writeString p.1 ++
    (ascii ",\"read_at_ms\":" ++ (writeOptionInt p.2.1 ++ ascii ",") ++
    (ascii "\"acknowledged_at_ms\":" ++ (writeOptionInt p.2.2 ++ ascii "\x7d")))

def lineJson : Line String → List UInt8
  | .create messageId sender category body anchor createdAtMs acknowledged =>
    0x7b :: createJson (messageId, sender, category, body, anchor, createdAtMs, acknowledged)
  | .update messageId readAtMs acknowledgedAtMs =>
    0x7b :: updateJson (messageId, readAtMs, acknowledgedAtMs)

theorem delimited_createJson : Delimited createJson := by
  have hstring := delimited_writeString
  have hnat : Delimited fun n => writeNat n ++ ascii "," :=
    delimited_token writeNat_injective writeNat_token (by decide)
  have hint : Delimited fun n => writeInt n ++ ascii "," :=
    delimited_token writeInt_injective writeInt_token (by decide)
  have hbool : Delimited fun v => writeBool v ++ ascii "\x7d" :=
    delimited_token writeBool_injective writeBool_token (by decide)
  exact (hstring.labelled _).pair ((hstring.labelled _).pair ((hstring.labelled _).pair
    ((hstring.labelled _).pair ((hnat.labelled _).pair ((hint.labelled _).pair
    (hbool.labelled _))))))

theorem delimited_updateJson : Delimited updateJson := by
  have htime : ∀ d : UInt8, ¬isTokenByte d → Delimited fun t => writeOptionInt t ++ [d] :=
    fun _ => delimited_token writeOptionInt_injective writeOptionInt_token
  exact (delimited_writeString.labelled _).pair (((htime _ (by decide)).labelled _).pair
    ((htime _ (by decide)).labelled _))

theorem lineJson_injective : Function.Injective lineJson := by
  intro line line' h
  cases line <;> cases line'
  · have hfields := delimited_createJson.injective (List.cons.inj h).2
    simpa [Prod.ext_iff] using hfields
  · -- the two operations differ in their names
    exact absurd (congrArg (·.take 8) h) (by simp [lineJson, createJson, updateJson, ascii])
  · exact absurd (congrArg (·.take 8) h) (by simp [lineJson, createJson, updateJson, ascii])
  · have hfields := delimited_updateJson.injective (List.cons.inj h).2
    simpa [Prod.ext_iff] using hfields

theorem lineJson_eq (line : Line String) :
    ∃ rest, lineJson line = 0x7b :: rest ∧ ∀ b ∈ rest, isPlain b := by
  have htoken : ∀ {bs : List UInt8}, (∀ b ∈ bs, isTokenByte b) → ∀ b ∈ bs, isPlain b :=
    fun h b hb => isPlain_of_isTokenByte (h b hb)
  have hstring := isPlain_writeString
  cases line with
  | create messageId sender category body anchor createdAtMs acknowledged =>
    refine ⟨_, rfl, ?_⟩
    have hanchor := htoken (writeNat_token anchor)
    have hcreated := htoken (writeInt_token createdAtMs)
    have hacknowledged := htoken (writeBool_token acknowledged)
    simp only [createJson, forall_mem_append]
    have hlabel := @isPlain_ascii
    exact ⟨⟨hlabel (by decide), hstring messageId⟩, ⟨hlabel (by decide), hstring sender⟩,
      ⟨hlabel (by decide), hstring category⟩, ⟨hlabel (by decide), hstring body⟩,
      ⟨hlabel (by decide), hanchor, hlabel (by decide)⟩,
      ⟨hlabel (by decide), hcreated, hlabel (by decide)⟩,
      hlabel (by decide), hacknowledged, hlabel (by decide)⟩
  | update messageId readAtMs acknowledgedAtMs =>
    refine ⟨_, rfl, ?_⟩
    have hread := htoken (writeOptionInt_token readAtMs)
    have hacknowledged := htoken (writeOptionInt_token acknowledgedAtMs)
    simp only [updateJson, forall_mem_append]
    have hlabel := @isPlain_ascii
    exact ⟨⟨hlabel (by decide), hstring messageId⟩, ⟨hlabel (by decide), hread, hlabel (by decide)⟩,
      hlabel (by decide), hacknowledged, hlabel (by decide)⟩

noncomputable def jsonFormat : LineFormat String where
  encode := lineJson
  decode := Function.partialInv lineJson
  decode_encode := Function.partialInv_left lineJson_injective
  newline_notMem line := by
    obtain ⟨rest, hline, hplain⟩ := lineJson_eq line
    rw [hline, List.mem_cons, not_or]
    exact ⟨by decide, fun h => absurd (hplain _ h) (by decide)⟩
  head_encode line := by
    obtain ⟨rest, hline, -⟩ := lineJson_eq line
    rw [hline]
    rfl
  decode_glued front line hfront := by
    obtain ⟨front, rfl⟩ : ∃ front', front = 0x7b :: front' := List.head?_eq_some_iff.mp hfront
    rw [Option.eq_none_iff_forall_ne_some]
    intro whole hwhole
    have henc := (Function.Injective.isPartialInv lineJson_injective whole _).mp hwhole
    obtain ⟨rest, hrest, hplain⟩ := lineJson_eq whole
    obtain ⟨rest', hline, -⟩ := lineJson_eq line
    rw [hrest, hline, List.cons_append, List.cons.injEq] at henc
    exact absurd (hplain 0x7b (by rw [henc.2]; simp)) (by decide)

/-- A message that was read, by a call that dies after so many bytes or does not. -/
def readCall (dies : Option Nat) : Call String where
  source := ⟨"m1", "alice", "report", "done"⟩
  anchor := 7
  action := .read
  nowMs := 1000
  dies := dies

/-- One call that dies after the first byte of its line and one call that completes: the whole
ledger is unreadable. -/
theorem torn_line_unreadable :
    ¬Readable jsonFormat (appendAll jsonFormat [readCall (some 1), readCall none] ⟨[], []⟩) := by
  rw [readable_appendAll_iff tidy_empty]
  rintro ⟨-, hsecond, -⟩
  have htorn : append jsonFormat (readCall (some 1)) ⟨[], []⟩ = ⟨[0x7b], []⟩ := rfl
  rw [htorn] at hsecond
  rcases hsecond with hdies | hend | hrecorded
  · cases hdies
  · exact absurd hend (by decide)
  · obtain ⟨event, hfind, -⟩ := hrecorded [] rfl
    cases hfind

end NilsCli.Coordination.ReadEvents
