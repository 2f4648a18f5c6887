import NilsCli.Workspace.Running

/-!
# Replayed begin requests

A begin request is recognised by the digest of its id as long as its operation is in the history of
the binding.
-/

namespace NilsCli.Workspace

open Lib List

variable {served : Option (String × State)} {again : BeginRequest}

variable {request : BeginRequest} {digests : String × String} {ended : Bool} {disk : Disk}
  {n : Nat}

section
variable {host : Host} {protocol : ProtocolGeneration} {env : Env} {key operationId : String}
  {files : Files} {file : Option State} {state written : State} {outcome : Outcome}
  {operations : List OperationRecord}

/-! ## The history -/

theorem dropTerminal_sublist (n : Nat) (operations : List OperationRecord) :
    (dropTerminal n operations).Sublist operations := by
  induction operations generalizing n with
  | nil => exact List.Sublist.refl []
  | cons first operations ih =>
    cases n with
    | zero => exact List.Sublist.refl _
    | succ n =>
      rw [dropTerminal]
      split
      · exact (ih _).cons_cons first
      · exact (ih n).cons first

theorem roomFor_sublist (operations : List OperationRecord) :
    (roomFor operations).Sublist operations := by
  unfold roomFor
  split
  · exact dropTerminal_sublist _ _
  · exact List.Sublist.refl _

theorem dropTerminal_one (operations : List OperationRecord) :
    dropTerminal 1 operations = operations.eraseP (!·.isActive) := by
  induction operations with
  | nil => rfl
  | cons first operations ih =>
    rw [dropTerminal, eraseP_cons]
    cases first.isActive with
    | true => simp [ih]
    | false =>
      cases operations with
      | nil => rfl
      | cons second operations => rfl

/-- The id of the oldest operation that has ended. -/
def oldestEnded (operations : List OperationRecord) : Option String :=
  (operations.find? (!·.isActive)).map (·.operationId)

theorem mem_roomFor_of_ne {operation : OperationRecord} (hmem : operation ∈ operations)
    (hlength : operations.length ≤ maxOperations) (hne : maxOperations ≤ operations.length →
      oldestEnded operations ≠ some operation.operationId) :
    operation ∈ roomFor operations := by
  unfold roomFor
  split
  next hfull =>
    have hone : operations.length - (maxOperations - 1) = 1 := by
      have hmax : maxOperations = 256 := rfl
      omega
    rw [compactOperations, hone, dropTerminal_one]
    cases hfind : operations.find? (!·.isActive) with
    | none =>
      rw [eraseP_of_forall_not]
      · exact hmem
      · intro other hother
        simpa using List.find?_eq_none.mp hfind other hother
    | some oldest =>
      have hother : operation ≠ oldest := by
        rintro rfl
        exact hne hfull (by simp [oldestEnded, hfind])
      obtain ⟨holdest, before, after, rfl, hbefore⟩ := List.find?_eq_some_iff_append.mp hfind
      rw [eraseP_append_right _ (fun b hb => by simpa using hbefore b hb), eraseP_cons,
        holdest]
      rcases List.mem_append.mp hmem with hmem | hmem
      · exact mem_append_left _ hmem
      · exact mem_append_right _ ((List.mem_cons.mp hmem).resolve_left hother)
  next => exact hmem

/-! ## Begin requests -/

def replayed (protocol : ProtocolGeneration) : Outcome :=
  denied protocol.beginResultSchema "uncertain" "WORKSPACE_OPERATION_REPLAYED"
    "the operation identity already reached a terminal state"

/-- The facts of a begin request. -/
def beginDigest (host : Host) (request : BeginRequest) : String :=
  host.digestValue "workspace-begin" (.object
    [("request", .string (executionDigest host request)), ("binding_id", .string request.bindingId),
      ("generation", .string request.generation)])

theorem beginOperation_known (host : Host) (protocol : ProtocolGeneration) (env : Env) (key : String)
    (now : Nat) {record : OperationRecord}
    (hfind : state.operations.find? (·.requestIdDigest = host.digest request.requestId) =
      some record) :
    beginOperation host protocol env request key now state =
      if record.requestDigest ≠ beginDigest host request then .error idempotencyReused
      else if record.isActive then .ok (granted protocol record, none)
      else .ok (replayed protocol, none) := by
  unfold beginOperation
  rw [hfind]
  dsimp only
  refine if_congr Iff.rfl rfl ?_
  cases record.isActive with
  | true => rfl
  | false => rfl

theorem beginOperation_writes {now : Nat}
    (h : beginOperation host protocol env request key now state = .ok (outcome, some written)) :
    state.operations.find? (·.requestIdDigest = host.digest request.requestId) = none ∧
      outcome = granted protocol
        (newOperation host env request (beginDigest host request) now) ∧
      written = { state with operations := roomFor state.operations ++
        [newOperation host env request (beginDigest host request) now] } := by
  cases hfind : state.operations.find? (·.requestIdDigest = host.digest request.requestId) with
  | some record =>
    rw [beginOperation_known host protocol env key now hfind] at h
    split_ifs at h <;> cases h
  | none =>
    unfold beginOperation at h
    rw [hfind] at h
    dsimp only at h
    split at h
    next => cases h
    next =>
      rw [bind_eq_ok] at h
      obtain ⟨written', hwrite, h⟩ := h
      obtain ⟨rfl, -⟩ := writeState_ok hwrite
      cases Except.ok.inj h
      exact ⟨rfl, rfl, rfl⟩

/-! ## What a write keeps of the history -/

/-- Each request id has one operation. -/
def Distinct (state : State) : Prop := (state.operations.map (·.requestIdDigest)).Nodup

/-- The history has the operation under the digests of its request id and of its facts. -/
def Recorded (operationId : String) (digests : String × String) (ended : Bool) (state : State) :
    Prop :=
  ∃ record ∈ state.operations, record.operationId = operationId ∧
    (record.requestIdDigest, record.requestDigest) = digests ∧ (ended → record.isActive = false)

/-- The request binds the workspace anew. -/
def Rebinds (host : Host) (key : String) (label : LeaseLabel) (disk : Disk) : Prop :=
  ∃ request outcome written, label.request = .bind request ∧
    serve host label.protocol label.env label.request disk.files = .ok (outcome, some (key, written))

def Trims (host : Host) (key operationId : String) (label : LeaseLabel) (disk : Disk) : Prop :=
  ∃ request state outcome written, label.request = .begin_ request ∧ disk.files key = some state ∧
    maxOperations ≤ state.operations.length ∧
    oldestEnded state.operations = some operationId ∧
    serve host label.protocol label.env label.request disk.files = .ok (outcome, some (key, written))

def Retains (host : Host) (key operationId : String) (label : LeaseLabel) (disk : Disk) : Prop :=
  ¬ Rebinds host key label disk ∧ ¬ Trims host key operationId label disk

theorem serve_begin_writes
    (h : serve host protocol env (.begin_ request) files = .ok (outcome, some (key, written))) :
    ∃ state now requestDigest, files key = some state ∧ state.operations.length ≤ maxOperations ∧
      state.operations.find? (·.requestIdDigest = host.digest request.requestId) = none ∧
      outcome = granted protocol (newOperation host env request requestDigest now) ∧
      written = { state with operations := roomFor state.operations ++
        [newOperation host env request requestDigest now] } := by
  rw [serve, bind_eq_ok] at h
  obtain ⟨_, -, h⟩ := h
  obtain ⟨rfl, h⟩ := underKey_write h
  obtain ⟨state, hfile, hvalid, ⟨-, hnone⟩ | ⟨now, -, hbegin⟩⟩ := begin_reaches h
  · cases hnone
  · obtain ⟨hfind, houtcome, hwritten⟩ := beginOperation_writes hbegin
    have hlength : state.operations.length ≤ maxOperations := by
      have hall := ensure_eq_ok.mp hvalid
      simp only [Bool.and_eq_true, decide_eq_true_eq] at hall
      exact hall.1.1.1.1.1.2
    exact ⟨state, now, _, hfile, hlength, hfind, houtcome, hwritten⟩

theorem isActive_ended (operation : OperationRecord) (result : OperationOutcome) (now : Nat)
    (digest : String) : (operation.ended result now digest).isActive = false := by
  cases result <;> rfl

theorem map_digest_ended (p : OperationRecord → Bool) (result : OperationOutcome) (now : Nat)
    (digest : String) (operations : List OperationRecord) :
    (updateFirst p (·.ended result now digest) operations).map (·.requestIdDigest) =
      operations.map (·.requestIdDigest) := by
  induction operations with
  | nil => rfl
  | cons first operations ih =>
    rw [updateFirst]
    split
    · rfl
    · rw [map_cons, map_cons, ih]

theorem serve_keeps_record {request : Request}
    (hfile : files key = some state) (hrecorded : Recorded operationId digests ended state)
    (hretains : Retains host key operationId ⟨protocol, env, request⟩ ⟨files, 0⟩)
    (h : serve host protocol env request files = .ok (outcome, some (key, written))) :
    Recorded operationId digests ended written := by
  obtain ⟨record, hmem, hid, hdigest, hended⟩ := hrecorded
  cases request with
  | bind request => exact absurd ⟨request, outcome, written, rfl, h⟩ hretains.1
  | begin_ request =>
    obtain ⟨_, now, requestDigest, hfile', hlength, -, -, rfl⟩ := serve_begin_writes h
    cases hfile.symm.trans hfile'
    refine ⟨record, mem_append_left _ (mem_roomFor_of_ne hmem hlength fun hfull holdest => ?_),
      hid, hdigest, hended⟩
    exact hretains.2 ⟨request, state, outcome, _, rfl, hfile, hfull, hid ▸ holdest, h⟩
  | complete request =>
    obtain ⟨-, hwrote⟩ := serve_writes h
    rw [hfile] at hwrote
    cases hwrote with
    | complete hbefore hstatus hexact hfind =>
      cases hbefore
      rcases mem_updateFirst_or hmem with hkept | hfound
      · exact ⟨record, hkept, hid, hdigest, hended⟩
      · exact ⟨_, mem_updateFirst_of_find? hfound, hid, hdigest, fun _ => isActive_ended ..⟩
  | renew request =>
    obtain ⟨-, hwrote⟩ := serve_writes h
    rw [hfile] at hwrote
    cases hwrote with
    | renew hbefore =>
      cases hbefore
      exact ⟨record, hmem, hid, hdigest, hended⟩
  | release request =>
    obtain ⟨-, hwrote⟩ := serve_writes h
    rw [hfile] at hwrote
    cases hwrote with
    | release hbefore =>
      cases hbefore
      exact ⟨record, hmem, hid, hdigest, hended⟩

theorem serve_distinct {request : Request} (hdistinct : ∀ state, files key = some state → Distinct state)
    (h : serve host protocol env request files = .ok (outcome, some (key, written))) :
    Distinct written := by
  cases request with
  | begin_ request =>
    obtain ⟨state, now, requestDigest, hfile, -, hfind, -, rfl⟩ := serve_begin_writes h
    have hroom : ((roomFor state.operations).map (·.requestIdDigest)).Nodup :=
      (hdistinct state hfile).sublist ((roomFor_sublist state.operations).map _)
    unfold Distinct
    rw [map_append, nodup_append]
    refine ⟨hroom, nodup_singleton _, fun digest hdigest digest' hdigest' hsame => ?_⟩
    obtain ⟨record, hrecord, rfl⟩ := List.mem_map.mp hdigest
    rw [map_singleton, mem_singleton] at hdigest'
    have hnew := List.find?_eq_none.mp hfind record ((roomFor_sublist _).subset hrecord)
    refine hnew (decide_eq_true ?_)
    rw [hsame, hdigest']
    rfl
  | bind request =>
    obtain ⟨-, hwrote⟩ := serve_writes h
    cases hwrote with
    | bind hkey hquiet => exact nodup_nil
  | complete request =>
    obtain ⟨-, hwrote⟩ := serve_writes h
    cases hwrote with
    | complete hbefore hstatus hexact hfind =>
      unfold Distinct
      rw [map_digest_ended]
      exact hdistinct _ hbefore
  | renew request =>
    obtain ⟨-, hwrote⟩ := serve_writes h
    cases hwrote with
    | renew hbefore =>
      have hbefore := hdistinct _ hbefore
      exact hbefore
  | release request =>
    obtain ⟨-, hwrote⟩ := serve_writes h
    cases hwrote with
    | release hbefore =>
      have hbefore := hdistinct _ hbefore
      exact hbefore

/-! ## Runs -/

theorem after_file (host : Host) {request : Request} :
    (files.after (serve host protocol env request files)) key = files key ∨
      ∃ outcome written, serve host protocol env request files = .ok (outcome, some (key, written)) ∧
        (files.after (serve host protocol env request files)) key = some written := by
  cases hserve : serve host protocol env request files with
  | error e => exact .inl rfl
  | ok answer =>
    obtain ⟨outcome, reply⟩ := answer
    cases reply with
    | none => exact .inl rfl
    | some reply =>
      obtain ⟨key', written⟩ := reply
      by_cases hkey : key = key'
      · subst hkey
        exact .inr ⟨outcome, written, rfl, Function.update_self ..⟩
      · exact .inl (Function.update_of_ne hkey ..)

theorem reach_distinct (h : (leaseSystem host).Reach disk) :
    ∀ key state, disk.files key = some state → Distinct state := by
  refine h.invariant (S := leaseSystem host)
    (I := fun disk : Disk => ∀ key state, disk.files key = some state → Distinct state) ?_ ?_
  · intro disk hinit key state hfile
    rw [hinit key] at hfile
    cases hfile
  · intro label disk disk' hdistinct hstep key state hfile
    cases hstep with
    | serve hclock =>
      rcases after_cases hfile with hfile | ⟨outcome, hserve⟩
      · exact hdistinct key state hfile
      · exact serve_distinct (hdistinct key) hserve

def Holds (key operationId : String) (digests : String × String) (ended : Bool) (disk : Disk) :
    Prop := ∃ state, disk.files key = some state ∧ Recorded operationId digests ended state

theorem run_holds {disk' : Disk} {labels : List LeaseLabel}
    (hrun : ((leaseSystem host).restrict (Retains host key operationId)).Run labels disk disk')
    (h : Holds key operationId digests ended disk) :
    Holds key operationId digests ended disk' := by
  refine hrun.preserves (S := (leaseSystem host).restrict (Retains host key operationId))
    (I := Holds key operationId digests ended) ?_ h
  rintro label disk disk' ⟨state, hfile, hrecorded⟩ ⟨hretains, hstep⟩
  cases hstep with
  | serve hclock =>
    rcases after_file host with hsame | ⟨outcome, written, hserve, hafter⟩
    · exact ⟨state, hsame.trans hfile, hrecorded⟩
    · exact ⟨written, hafter, serve_keeps_record hfile hrecorded hretains hserve⟩

/-! ## Repetitions -/

theorem granted_holds {begun : Disk}
    (hserve : serve host protocol env (.begin_ request) disk.files = .ok (outcome, served))
    (hgranted : outcome.kind = some "granted")
    (hstep : (leaseSystem host).step ⟨protocol, env, .begin_ request⟩ disk begun) :
    ∃ key operation, bindingKey request.bindingId = .ok key ∧ outcome = granted protocol operation ∧
      Holds key operation.operationId (host.digest request.requestId, beginDigest host request)
        false begun := by
  obtain ⟨key, -, hkey, -⟩ := begin_granted hserve hgranted
  have hafter : begun.files = disk.files.after (.ok (outcome, served)) := by
    cases hstep
    rw [← hserve]
  rw [serve, bind_eq_ok] at hserve
  obtain ⟨key', hkey', hserve⟩ := hserve
  obtain rfl := requestKey_ok hkey hkey'
  obtain ⟨reply, hreply, rfl⟩ := underKey_ok hserve
  obtain ⟨state, hfile, -, ⟨hrefused, -⟩ | ⟨now, -, hbegin⟩⟩ := begin_reaches hreply
  · exact absurd hgranted hrefused
  cases reply with
  | some written =>
    obtain ⟨-, houtcome, rfl⟩ := beginOperation_writes hbegin
    refine ⟨key', _, hkey, houtcome, _, by rw [hafter]; exact Function.update_self .., ?_⟩
    exact ⟨_, mem_append_right _ (List.mem_singleton.mpr rfl), rfl, rfl, by simp⟩
  | none =>
    cases hfind : state.operations.find? (·.requestIdDigest = host.digest request.requestId) with
    | none =>
      unfold beginOperation at hbegin
      rw [hfind] at hbegin
      dsimp only at hbegin
      split at hbegin
      · cases hbegin
      · rw [bind_eq_ok] at hbegin
        obtain ⟨_, -, hbegin⟩ := hbegin
        cases hbegin
    | some record =>
      rw [beginOperation_known host protocol env key' now hfind] at hbegin
      split_ifs at hbegin with hfacts
      · cases hbegin
        refine ⟨key', record, hkey, rfl, state, by rw [hafter]; exact hfile, record,
          List.mem_of_find?_eq_some hfind, rfl, ?_, by simp⟩
        exact Prod.ext (by simpa using List.find?_some hfind) (not_not.mp hfacts)
      · cases hbegin
        exact absurd hgranted (by rw [replayed, kind_denied]; decide)

theorem find_recorded (hdistinct : Distinct state)
    (hrecorded : Recorded operationId digests ended state) :
    ∃ record, state.operations.find? (·.requestIdDigest = digests.1) = some record ∧
      record.operationId = operationId ∧ record.requestDigest = digests.2 ∧
      (ended → record.isActive = false) := by
  obtain ⟨record, hmem, hid, rfl, hended⟩ := hrecorded
  cases hfind : state.operations.find? (·.requestIdDigest = record.requestIdDigest) with
  | none => simpa using List.find?_eq_none.mp hfind record hmem
  | some found =>
    have hfound : found.requestIdDigest = record.requestIdDigest := by
      simpa using List.find?_some hfind
    obtain rfl : found = record :=
      eq_of_key_eq hdistinct (List.mem_of_find?_eq_some hfind) hmem hfound
    exact ⟨found, rfl, hid, rfl, hended⟩

theorem begin_repeated (hdistinct : ∀ key state, disk.files key = some state → Distinct state)
    (hholds : Holds key operationId (host.digest request.requestId, beginDigest host request) ended
      disk)
    (hsame : again.requestId = request.requestId) (hkey : bindingKey again.bindingId = .ok key)
    (hserve : serve host protocol env (.begin_ again) disk.files = .ok (outcome, served))
    (hgranted : outcome.kind = some "granted") :
    ∃ record, record.operationId = operationId ∧ record.isActive ∧ (ended → record.isActive = false) ∧
      outcome = granted protocol record := by
  rw [serve, bind_eq_ok] at hserve
  obtain ⟨key', hkey', hserve⟩ := hserve
  obtain rfl := requestKey_ok hkey hkey'
  obtain ⟨reply, hreply, rfl⟩ := underKey_ok hserve
  obtain ⟨state, hfile, -, ⟨hrefused, -⟩ | ⟨now, -, hbegin⟩⟩ := begin_reaches hreply
  · exact absurd hgranted hrefused
  obtain ⟨found, hfound, hrecorded⟩ := hholds
  cases hfile.symm.trans hfound
  obtain ⟨record, hfind, hid, -, hended⟩ := find_recorded (hdistinct _ state hfile) hrecorded
  rw [← hsame] at hfind
  rw [beginOperation_known host protocol env key' now hfind] at hbegin
  split_ifs at hbegin with hfacts hactive
  · cases hbegin
    exact ⟨record, hid, hactive, hended, rfl⟩
  · cases hbegin
    exact absurd hgranted (by rw [replayed, kind_denied]; decide)

theorem begin_replayed (hdistinct : ∀ key state, disk.files key = some state → Distinct state)
    (hholds : Holds key operationId (host.digest request.requestId, beginDigest host request) true
      disk)
    (hsame : again.requestId = request.requestId) :
    ∃ state, disk.files key = some state ∧ ∀ now,
      beginOperation host protocol env again key now state =
        if beginDigest host again = beginDigest host request then .ok (replayed protocol, none)
        else .error idempotencyReused := by
  obtain ⟨state, hfile, hrecorded⟩ := hholds
  obtain ⟨record, hfind, -, hdigest, hended⟩ := find_recorded (hdistinct key state hfile) hrecorded
  rw [← hsame] at hfind
  refine ⟨state, hfile, fun now => ?_⟩
  rw [beginOperation_known host protocol env key now hfind, hdigest, hended rfl]
  by_cases hfacts : beginDigest host again = beginDigest host request
  · rw [if_neg (not_not.mpr hfacts.symm), if_pos hfacts]
    rfl
  · rw [if_pos fun h => hfacts h.symm, if_neg hfacts]

/-- The operation has ended. -/
def Ended (key operationId : String) (disk : Disk) : Prop :=
  ∃ state record, disk.files key = some state ∧ record ∈ state.operations ∧
    record.operationId = operationId ∧ record.isActive = false

theorem holds_of_ended (hdisk : disk.Sound host)
    (hholds : Holds key operationId digests false disk) (hended : Ended key operationId disk) :
    Holds key operationId digests true disk := by
  obtain ⟨state, hfile, record, hmem, hid, hdigest, -⟩ := hholds
  obtain ⟨state', record', hfile', hmem', hid', hinactive⟩ := hended
  cases hfile.symm.trans hfile'
  obtain rfl : record = record' := eq_of_key_eq (validOperations (hdisk key state hfile).valid).1 hmem
    hmem' (hid.trans hid'.symm)
  exact ⟨state, hfile, record, hmem, hid, hdigest, fun _ => hinactive⟩

end

/-! ## A full history -/

def numbered (width n : Nat) : String :=
  String.ofList ((List.range width).map fun i => if n.testBit i then 'a' else 'b')

theorem numbered_injective {width m n : Nat} (hm : m < 2 ^ width) (hn : n < 2 ^ width)
    (h : numbered width m = numbered width n) : m = n := by
  have hchars := String.ofList_injective h
  refine Nat.eq_of_testBit_eq fun i => ?_
  by_cases hi : i < width
  · have hchar := List.map_inj_left.mp hchars i (List.mem_range.mpr hi)
    cases hm : m.testBit i <;> cases hn : n.testBit i <;> simp_all
  · have hpow : 2 ^ width ≤ 2 ^ i := Nat.pow_le_pow_right (by decide) (Nat.le_of_not_lt hi)
    rw [Nat.testBit_lt_two_pow (by omega), Nat.testBit_lt_two_pow (by omega)]

theorem mem_numbered {width : Nat} {c : Char} (h : c ∈ (numbered width n).toList) :
    c = 'a' ∨ c = 'b' := by
  rw [numbered, String.toList_ofList, mem_map] at h
  obtain ⟨i, -, rfl⟩ := h
  split
  · exact .inl rfl
  · exact .inr rfl

theorem size_numbered (width n : Nat) : (numbered width n).utf8ByteSize = width := by
  have hsize : ∀ cs : List Char, (∀ c ∈ cs, c = 'a' ∨ c = 'b') →
      (String.ofList cs).utf8ByteSize = cs.length := by
    intro cs hcs
    induction cs with
    | nil => rfl
    | cons c cs ih =>
      have hone : c.utf8Size = 1 := by
        rcases hcs c (by simp) with rfl | rfl <;> rfl
      rw [String.ofList_cons, String.utf8ByteSize_append, String.utf8ByteSize_singleton, hone,
        ih fun c' hc' => hcs c' (by simp [hc']), length_cons, Nat.add_comm]
  unfold numbered
  rw [hsize]
  · simp
  · intro c hc
    exact mem_numbered (show c ∈ (numbered width n).toList by rwa [numbered, String.toList_ofList])

theorem isLowerHex_numbered (width n : Nat) : isLowerHex (numbered width n) = true := by
  refine List.all_eq_true.mpr fun c hc => ?_
  rcases mem_numbered hc with rfl | rfl <;> decide

theorem validOpaque_numbered (pre : String) (n : Nat) :
    validOpaque (pre ++ "." ++ numbered 32 n) pre = true := by
  have hprefix : stripPrefix? (pre ++ "." ++ numbered 32 n) (pre ++ ".") =
      some (numbered 32 n).toList := by
    simp [stripPrefix?]
  rw [validOpaque, hprefix]
  simp [size_numbered, isLowerHex_numbered]

theorem validText_append_numbered {pre : String} (width n : Nat) (hpre : validText pre = true)
    (hsize : pre.utf8ByteSize + width ≤ maxTextBytes) : validText (pre ++ numbered width n) = true := by
  simp only [validText, Bool.and_eq_true, decide_eq_true_eq, Bool.not_eq_true'] at hpre ⊢
  refine ⟨⟨fun h => hpre.1.1 (String.append_eq_empty_iff.mp h).1, ?_⟩, ?_⟩
  · rw [String.utf8ByteSize_append, size_numbered]
    exact hsize
  · rw [String.toList_append, any_append, hpre.2, Bool.false_or, any_eq_false]
    intro c hc
    rcases mem_numbered hc with rfl | rfl <;> decide

/-- The digest of everything else. -/
def countedDigest : String := String.ofList (List.replicate 64 'c')

def countedHost : Host where
  digest text := if isHexDigest text then text else String.ofList (List.replicate 64 'b')
  digestValue _ _ := countedDigest
  keyedValue _ _ := String.ofList (List.replicate 64 'd')
  samePath a b := a = b
  stateBytes _ := 2048

def countedKey : String := String.ofList (List.replicate 64 'd')

def countedEnv (m : Nat) : Env :=
  { sampleEnv 101 with operationNonce := numbered 32 m, fenceNonce := numbered 32 m }

def countedBegin (n : Nat) : BeginRequest := { sampleBegin with requestId := numbered 64 n }

def countedOperation (m n : Nat) : OperationRecord where
  operationId := "wlo1." ++ numbered 32 m
  fence := "wlf1." ++ numbered 32 m
  requestIdDigest := numbered 64 n
  requestDigest := countedDigest
  executionDigest := countedDigest
  completionExecutionDigest := countedDigest
  status := .active
  startedAtEpoch := 101
  completedAtEpoch := none
  completionDigest := none

/-- Its end. -/
def countedEnded (n : Nat) : OperationRecord :=
  (countedOperation n n).ended .succeeded 101 countedDigest

def countedComplete (n : Nat) : CompleteRequest where
  version := 1
  requestId := "complete"
  sessionId := "alice"
  parentSessionId := none
  toBindingRef := sampleBinding
  operationId := "wlo1." ++ numbered 32 n
  fence := "wlf1." ++ numbered 32 n
  callId := "call-1"
  rootCallId := "call-1"
  toolName := "Bash"
  outcome := .succeeded
  errorCode := none

def countedFiles : Files :=
  Files.after (fun _ => none) (serve countedHost .v1 (sampleEnv 101) (.bind sampleBind) fun _ => none)

def countedState (operations : List OperationRecord) : State where
  schemaVersion := stateSchema
  workspaceKey := countedKey
  workspaceId := "wlw1." ++ sampleNonce
  identity := .managed sampleIdentity
  binding :=
    { bindingId := sampleBinding.bindingId
      generation := sampleBinding.generation
      sessionDigest := String.ofList (List.replicate 64 'b')
      parentSessionDigest := none
      mode := .owned
      status := .active
      bindRequestDigest := countedDigest
      bindRequestIdDigest := String.ofList (List.replicate 64 'b')
      refreshedAtEpoch := 101
      expiresAtEpoch := 131 }
  operations := operations
  tombstones := []

/-- The disk with this history. -/
def countedDisk (operations : List OperationRecord) : Disk :=
  ⟨Function.update countedFiles countedKey (some (countedState operations)), 101⟩

theorem countedState_nil :
    countedState [] = newState (sampleEnv 101) (samplePrepared 'b' 'b') 101 none := by
  decide

theorem countedDisk_nil : countedDisk [] = ⟨countedFiles, 101⟩ := by
  have hserve : serve countedHost .v1 (sampleEnv 101) (.bind sampleBind) (fun _ => none) = _ :=
    @serve_sampleBind countedHost 'b' 'b' 101 (by decide) (by decide)
      (fun _ _ => rfl) (fun _ _ => rfl) (fun _ => show 2048 ≤ stateMaxBytes by decide) (by simp)
      (by decide)
  have hfile : countedFiles countedKey = some (countedState []) := by
    rw [countedState_nil, countedFiles, hserve]
    exact Function.update_self (f := fun _ => none) (letters 'd') _
  unfold countedDisk
  rw [← hfile, Function.update_eq_self]

theorem countedDisk_file (operations : List OperationRecord) :
    (countedDisk operations).files countedKey = some (countedState operations) := by
  simp [countedDisk]

theorem counted_digest (n : Nat) : countedHost.digest (numbered 64 n) = numbered 64 n :=
  if_pos (by simp [isHexDigest, size_numbered, isLowerHex_numbered])

theorem counted_key (n : Nat) :
    requestKey .v1 (countedBegin n).toCommon (countedBegin n).toBindingRef (countedBegin n).texts =
      .ok countedKey ∧
    requestKey .v1 (countedComplete n).toCommon (countedComplete n).toBindingRef
      (countedComplete n).texts = .ok countedKey := by
  have hkey : bindingKey sampleBinding.bindingId = .ok countedKey :=
    ok_of_toOption (by decide +kernel)
  have hid : validText (numbered 64 n) = true := by
    have hne : numbered 64 n ≠ "" := by
      intro h
      have := size_numbered 64 n
      rw [h] at this
      cases this
    simp only [validText, Bool.and_eq_true, decide_eq_true_eq, Bool.not_eq_true', size_numbered]
    refine ⟨⟨hne, by decide⟩, List.any_eq_false.mpr fun c hc => ?_⟩
    rcases mem_numbered hc with rfl | rfl <;> decide
  have hoperation : validText ("wlo1." ++ numbered 32 n) = true :=
    validText_append_numbered 32 n (by decide) (by decide)
  have hfence : validText ("wlf1." ++ numbered 32 n) = true :=
    validText_append_numbered 32 n (by decide) (by decide)
  have htexts : (countedBegin 0).texts.all validText = true := by decide +kernel
  have hcommon : validText "complete" = true ∧ validText "alice" = true := by decide +kernel
  constructor
  · unfold requestKey validateCommon validTexts
    rw [show (countedBegin n).texts = (countedBegin 0).texts from rfl, htexts]
    simp [countedBegin, sampleBegin, hid, hcommon, hkey, ensure, ok_bind, ProtocolGeneration.wireVersion]
  · have hcall : validText "call-1" = true ∧ validText "Bash" = true ∧
        validText sampleBinding.bindingId = true ∧ validText sampleBinding.workspaceId = true ∧
        validText sampleBinding.generation = true := by decide +kernel
    unfold requestKey validateCommon validTexts
    simp [CompleteRequest.texts, countedComplete, hoperation, hfence, hcommon, hcall, hkey, ensure,
      ok_bind, ProtocolGeneration.wireVersion]

theorem counted_valid {operations : List OperationRecord} (hlength : operations.length ≤ maxOperations)
    (hids : (operations.map (·.operationId)).Nodup) (hfences : (operations.map (·.fence)).Nodup)
    (hall : operations.all validOperation = true) :
    validateLoadedState countedHost countedKey (countedState operations) = .ok () := by
  have hbase : validateLoadedState countedHost countedKey (countedState []) = .ok () := by
    rw [countedState_nil]
    exact @samplePrepared_valid countedHost 'b' 'b' 101 (fun _ _ => rfl) (by simp) (by decide)
  exact @validateLoadedState_operations countedHost countedKey (countedState []) operations hbase
    hlength hids hfences hall

theorem counted_binding (operations : List OperationRecord) {request : Common}
    (hsession : request.sessionId = "alice") (hparent : request.parentSessionId = none) :
    exactBinding countedHost (countedState operations) request sampleBinding = true := by
  have hdigest : countedHost.digest "alice" = String.ofList (replicate 64 'b') := by
    decide +kernel
  rw [exactBinding_iff, hsession, hparent, hdigest]
  exact ⟨rfl, rfl, rfl, rfl, rfl⟩

theorem counted_begin (operations : List OperationRecord) (m n : Nat)
    (hvalid : validateLoadedState countedHost countedKey (countedState operations) = .ok ())
    (hfind : operations.find? (·.requestIdDigest = numbered 64 n) = none)
    (hroom : (roomFor operations).length < maxOperations)
    (hwritten : validateLoadedState countedHost countedKey
      (countedState (roomFor operations ++ [countedOperation m n])) = .ok ()) :
    serve countedHost .v1 (countedEnv m) (.begin_ (countedBegin n)) (countedDisk operations).files =
      .ok (granted .v1 (countedOperation m n),
        some (countedKey, countedState (roomFor operations ++ [countedOperation m n]))) := by
  have hdenial : bindingDenial countedHost .v1 (countedState operations) (countedBegin n).toCommon
      (countedBegin n).toBindingRef = none :=
    if_pos (by
      rw [show (countedBegin n).toBindingRef = sampleBinding from rfl, counted_binding operations rfl rfl]
      rfl)
  have hfound : (countedState operations).operations.find?
      (·.requestIdDigest = countedHost.digest (countedBegin n).requestId) = none := by
    show operations.find? (·.requestIdDigest = countedHost.digest (numbered 64 n)) = none
    rw [counted_digest]
    exact hfind
  have hnew : newOperation countedHost (countedEnv m) (countedBegin n)
      countedDigest 101 = countedOperation m n := by
    show ({ countedOperation m n with requestIdDigest := countedHost.digest (numbered 64 n) } :
      OperationRecord) = countedOperation m n
    rw [counted_digest]
    rfl
  have hwrite : writeState countedHost countedKey
      (countedState (roomFor operations ++ [countedOperation m n])) =
        .ok (countedState (roomFor operations ++ [countedOperation m n])) := by
    unfold writeState
    rw [hwritten]
    rfl
  have hidentity : revalidateManagedIdentity (countedEnv m) (countedState operations) = .ok () := by
    show ensure (sampleIdentity = sampleIdentity) identityChanged = .ok ()
    exact ensure_eq_ok.mpr rfl
  have htarget : requireTarget countedHost .v1 (countedState operations) (countedBegin n) = .ok () := by
    show ensure _ wireInvalid = .ok ()
    exact ensure_eq_ok.mpr rfl
  have hlocked : beginLocked countedHost .v1 (countedEnv m) (countedBegin n) countedKey
      (some (countedState operations)) = .ok (granted .v1 (countedOperation m n),
        some (countedState (roomFor operations ++ [countedOperation m n]))) := by
    have hgranted := @beginLocked_granted countedHost .v1 (countedEnv m) (countedBegin n) countedKey
      (countedState operations) 101 hvalid hdenial hidentity htarget rfl
      (show ¬ (decide (BindingMode.owned = .unmanaged) ||
        (ProtocolGeneration.v1.suppressesReadOnlyFence && toolIsReadOnly sampleBegin)) = true by
          decide +kernel)
      rfl (show 101 < 131 by decide) hfound hroom countedDigest rfl
    rw [hnew] at hgranted
    exact hgranted hwrite
  rw [serve, (counted_key n).1, ok_bind, underKey]
  rw [countedDisk_file, hlocked]
  rfl

theorem counted_complete {operations written : List OperationRecord} (n : Nat)
    (hvalid : validateLoadedState countedHost countedKey (countedState operations) = .ok ())
    (hfind : operations.find? (·.operationId = (countedOperation n n).operationId) =
      some (countedOperation n n))
    (hended : updateFirst (·.operationId = (countedOperation n n).operationId)
      (·.ended .succeeded 101 countedDigest) operations = written)
    (hwritten : validateLoadedState countedHost countedKey (countedState written) = .ok ()) :
    (countedDisk operations).files.after
        (serve countedHost .v1 (countedEnv n) (.complete (countedComplete n))
          (countedDisk operations).files) = (countedDisk written).files := by
  have hbinding : requireBinding countedHost (countedState operations) (countedComplete n).toCommon
      (countedComplete n).toBindingRef = .ok () := by
    unfold requireBinding
    rw [show (countedComplete n).toBindingRef = sampleBinding from rfl, counted_binding operations rfl rfl]
    rfl
  have hfound : (countedState operations).operations.find?
      (·.operationId = (countedComplete n).operationId) = some (countedOperation n n) := hfind
  have hwrite : writeState countedHost countedKey (countedState written) =
        .ok (countedState written) := by
    unfold writeState
    rw [hwritten]
    rfl
  have hlocked : completeLocked countedHost .v1 (countedEnv n) (countedComplete n) countedKey
      (some (countedState operations)) = .ok (ack (ProtocolGeneration.completeResultSchema .v1) "completed"
        "operation completed", some (countedState written)) := by
    unfold completeLocked
    rw [readRequiredState_some hvalid, ok_bind, hbinding, ok_bind, hfound]
    dsimp only
    have hfence : ensure ((countedOperation n n).fence = (countedComplete n).fence) fenceInvalid =
        .ok () := ensure_eq_ok.mpr rfl
    have hexecution : ensure (completionExecution countedHost (countedComplete n).callId
        (countedComplete n).rootCallId (countedComplete n).toolName =
          (countedOperation n n).completionExecutionDigest) operationIdentityInvalid = .ok () :=
      ensure_eq_ok.mpr rfl
    have hactive : ¬(!(countedOperation n n).isActive) = true := by simp [OperationRecord.isActive,
      countedOperation]
    have hnow : (countedEnv n).nowEpoch = .ok 101 := rfl
    rw [hfence, ok_bind, hexecution, ok_bind, if_neg hactive, hnow, ok_bind]
    show (do
      let written ← writeState countedHost countedKey (countedState (updateFirst
        (·.operationId = (countedOperation n n).operationId)
        (·.ended .succeeded 101 countedDigest) operations))
      pure (ack (ProtocolGeneration.completeResultSchema .v1) "completed" "operation completed",
        some written)) = _
    rw [hended, hwrite]
    rfl
  have hserve : serve countedHost .v1 (countedEnv n) (.complete (countedComplete n))
      (countedDisk operations).files = .ok (ack (ProtocolGeneration.completeResultSchema .v1) "completed"
        "operation completed", some (countedKey, countedState written)) := by
    rw [serve, (counted_key n).2, ok_bind, underKey]
    rw [countedDisk_file, hlocked]
    rfl
  rw [hserve]
  exact Function.update_idem ..

theorem counted_step {operations operations' : List OperationRecord} {m : Nat} {outcome : Outcome}
    (h : serve countedHost .v1 (countedEnv m) (.begin_ (countedBegin n)) (countedDisk operations).files =
      .ok (outcome, some (countedKey, countedState operations'))) :
    (leaseSystem countedHost).step ⟨.v1, countedEnv m, .begin_ (countedBegin n)⟩
      (countedDisk operations) (countedDisk operations') := by
  have hstep : LeaseStep countedHost ⟨.v1, countedEnv m, .begin_ (countedBegin n)⟩
      (countedDisk operations) _ := LeaseStep.serve fun now hnow => (Option.some.inj hnow).le
  rw [h] at hstep
  have hdisk : (⟨(countedDisk operations).files.after
      (.ok (outcome, some (countedKey, countedState operations'))),
      (countedEnv m).now.getD (countedDisk operations).now⟩ : Disk) = countedDisk operations' :=
    congrArg (Disk.mk · 101) (Function.update_idem ..)
  rw [hdisk] at hstep
  exact hstep

def countedHistory (first count : Nat) : List OperationRecord :=
  (List.range' first count).map countedEnded

theorem counted_operation_valid (m n : Nat) : validOperation (countedOperation m n) = true ∧
    validOperation (countedEnded n) = true := by
  have hdigest : isHexDigest (numbered 64 n) = true := by
    simp [isHexDigest, size_numbered, isLowerHex_numbered]
  have hconst : isHexDigest countedDigest = true := by decide +kernel
  have hoperation : ∀ m, validOpaque ("wlo1." ++ numbered 32 m) "wlo1" = true := fun m =>
    validOpaque_numbered "wlo1" m
  have hfence : ∀ m, validOpaque ("wlf1." ++ numbered 32 m) "wlf1" = true := fun m =>
    validOpaque_numbered "wlf1" m
  constructor
  · simp only [validOperation, countedOperation, hdigest, hconst, hoperation, hfence]
    rfl
  · simp only [validOperation, countedEnded, OperationRecord.ended, countedOperation, hdigest, hconst,
      hoperation, hfence, Option.all_some]
    rfl

theorem counted_valid_of {operations : List OperationRecord} (ms : List Nat) (hms : ms.Nodup)
    (hlt : ∀ m ∈ ms, m < 2 ^ 32)
    (hids : operations.map (·.operationId) = ms.map fun m => "wlo1." ++ numbered 32 m)
    (hfences : operations.map (·.fence) = ms.map fun m => "wlf1." ++ numbered 32 m)
    (hlength : operations.length ≤ maxOperations) (hall : operations.all validOperation = true) :
    validateLoadedState countedHost countedKey (countedState operations) = .ok () := by
  have hnodup : ∀ pre, (ms.map fun m => pre ++ numbered 32 m).Nodup := by
    intro pre
    refine List.Nodup.map_on (fun m hm m' hm' h => ?_) hms
    exact numbered_injective (hlt m hm) (hlt m' hm') (String.append_right_inj pre |>.mp h)
  exact counted_valid hlength (hids ▸ hnodup _) (hfences ▸ hnodup _) hall

theorem counted_next_valid {first count m n : Nat} (hcount : count < maxOperations)
    (hlt : first + count < 2 ^ 32) (hm : m < 2 ^ 32) (hnew : m < first ∨ first + count ≤ m) :
    validateLoadedState countedHost countedKey
      (countedState (countedHistory first count ++ [countedOperation m n])) = .ok () := by
  refine counted_valid_of (range' first count ++ [m]) ?_ ?_ ?_ ?_ ?_ ?_
  · refine List.nodup_append.mpr ⟨nodup_range', nodup_singleton m, fun i hi j hj => ?_⟩
    have := mem_range'_1.mp hi
    rw [mem_singleton] at hj
    omega
  · intro i hi
    rcases List.mem_append.mp hi with hi | hi
    · have := mem_range'_1.mp hi
      omega
    · rw [mem_singleton] at hi
      omega
  · simp [countedHistory, countedEnded, OperationRecord.ended, countedOperation]
  · simp [countedHistory, countedEnded, OperationRecord.ended, countedOperation]
  · simp [countedHistory]
    omega
  · rw [all_append, Bool.and_eq_true]
    refine ⟨List.all_eq_true.mpr fun operation hoperation => ?_, ?_⟩
    · obtain ⟨i, -, rfl⟩ := List.mem_map.mp hoperation
      exact (counted_operation_valid i i).2
    · simpa using (counted_operation_valid m n).1

theorem counted_history_valid {first count : Nat} (hcount : count ≤ maxOperations)
    (hlt : first + count < 2 ^ 32) :
    validateLoadedState countedHost countedKey (countedState (countedHistory first count)) = .ok () := by
  refine counted_valid_of (range' first count) nodup_range' ?_ ?_ ?_ ?_ ?_
  · intro i hi
    have := mem_range'_1.mp hi
    omega
  · simp [countedHistory, countedEnded, OperationRecord.ended, countedOperation]
  · simp [countedHistory, countedEnded, OperationRecord.ended, countedOperation]
  · simpa [countedHistory] using hcount
  · refine List.all_eq_true.mpr fun operation hoperation => ?_
    obtain ⟨i, -, rfl⟩ := List.mem_map.mp hoperation
    exact (counted_operation_valid i i).2

theorem counted_not_found {first count : Nat} (hlt : first + count < 2 ^ 64) (hn : n < 2 ^ 64)
    (hnew : n < first ∨ first + count ≤ n) :
    (countedHistory first count).find? (·.requestIdDigest = numbered 64 n) = none := by
  refine List.find?_eq_none.mpr fun operation hoperation => ?_
  obtain ⟨i, hi, rfl⟩ := List.mem_map.mp hoperation
  have hrange := mem_range'_1.mp hi
  intro h
  have hdigest : numbered 64 i = numbered 64 n := of_decide_eq_true h
  have := numbered_injective (by omega) hn hdigest
  omega

theorem roomFor_counted_full (first : Nat) :
    roomFor (countedHistory first 256) = countedHistory (first + 1) 255 := by
  have hlength : (countedHistory first 256).length = 256 := by simp [countedHistory]
  have hmax : maxOperations = 256 := rfl
  unfold roomFor
  rw [if_pos (by rw [hlength, hmax]), compactOperations, hlength,
    show 256 - (maxOperations - 1) = 1 from rfl, dropTerminal_one]
  rw [countedHistory, range'_succ, map_cons, eraseP_cons]
  rfl

/-- The operation of the last request is ended. -/
theorem counted_complete_step {n : Nat} (hn : n ≤ 255) : (leaseSystem countedHost).step
    ⟨.v1, countedEnv n, .complete (countedComplete n)⟩
    (countedDisk (countedHistory 0 n ++ [countedOperation n n]))
    (countedDisk (countedHistory 0 (n + 1))) := by
  have hmax : maxOperations = 256 := rfl
  have hne : ∀ operation ∈ countedHistory 0 n,
      operation.operationId ≠ (countedOperation n n).operationId := by
    intro operation hoperation h
    obtain ⟨i, hi, rfl⟩ := List.mem_map.mp hoperation
    have hrange := mem_range'_1.mp hi
    have hid : numbered 32 i = numbered 32 n := String.append_right_inj "wlo1." |>.mp h
    have := numbered_injective (by omega) (by omega) hid
    omega
  have hupdate : ∀ operations : List OperationRecord, (∀ operation ∈ operations,
      operation.operationId ≠ (countedOperation n n).operationId) →
      updateFirst (·.operationId = (countedOperation n n).operationId)
        (·.ended .succeeded 101 countedDigest)
        (operations ++ [countedOperation n n]) = operations ++ [countedEnded n] := by
    intro operations hoperations
    induction operations with
    | nil => simp [updateFirst, countedEnded]
    | cons first operations ih =>
      rw [cons_append, updateFirst, if_neg (by simpa using hoperations first (by simp)),
        ih fun operation hoperation => hoperations operation (by simp [hoperation])]
      rfl
  have hnext : countedHistory 0 n ++ [countedEnded n] = countedHistory 0 (n + 1) := by
    rw [countedHistory, countedHistory, range'_1_concat, map_append, Nat.zero_add]
    rfl
  have hafter := counted_complete n
    (counted_next_valid (by omega) (by omega) (by omega) (.inr (by omega)))
    (by rw [List.find?_append, List.find?_eq_none.mpr fun operation hoperation => by
        simpa using hne operation hoperation]; simp)
    ((hupdate _ hne).trans hnext) (counted_history_valid (by omega) (by omega))
  have hstep : LeaseStep countedHost ⟨.v1, countedEnv n, .complete (countedComplete n)⟩
      (countedDisk (countedHistory 0 n ++ [countedOperation n n])) _ :=
    LeaseStep.serve fun now hnow => (Option.some.inj hnow).le
  rw [hafter] at hstep
  exact hstep

theorem counted_run (count : Nat) (hcount : count ≤ 255) : ∃ labels : List LeaseLabel,
    (∀ label ∈ labels, ∀ request, label.request ≠ .bind request) ∧
    (leaseSystem countedHost).Run labels (countedDisk [countedOperation 0 0])
      (countedDisk (countedHistory 0 (count + 1))) := by
  have hmax : maxOperations = 256 := rfl
  induction count with
  | zero =>
    refine ⟨_, fun label hlabel => ?_, .single (counted_complete_step (by omega))⟩
    cases List.mem_singleton.mp hlabel
    exact fun _ => Request.noConfusion
  | succ count ih =>
    obtain ⟨labels, hlabels, hrun⟩ := ih (by omega)
    have hbegin := counted_begin (countedHistory 0 (count + 1)) (count + 1) (count + 1)
      (counted_history_valid (by omega) (by omega))
      (counted_not_found (by omega) (by omega) (.inr (by omega)))
    have hroom : roomFor (countedHistory 0 (count + 1)) = countedHistory 0 (count + 1) := by
      have hlength : (countedHistory 0 (count + 1)).length = count + 1 := by simp [countedHistory]
      exact if_neg (by omega)
    rw [hroom] at hbegin
    have hserve := hbegin (by simp [countedHistory]; omega)
      (counted_next_valid (by omega) (by omega) (by omega) (.inr (by omega)))
    have hstep := counted_step hserve
    refine ⟨_, ?_, (hrun.snoc _ hstep).snoc _ (counted_complete_step (by omega))⟩
    intro label hlabel
    rcases List.mem_append.mp hlabel with hlabel | hlabel
    · rcases List.mem_append.mp hlabel with hlabel | hlabel
      · exact hlabels label hlabel
      · cases List.mem_singleton.mp hlabel
        exact fun _ => Request.noConfusion
    · cases List.mem_singleton.mp hlabel
      exact fun _ => Request.noConfusion

theorem counted_reach : (leaseSystem countedHost).Reach (countedDisk []) := by
  have hstep : LeaseStep countedHost ⟨.v1, sampleEnv 101, .bind sampleBind⟩ ⟨fun _ => none, 0⟩ _ :=
    LeaseStep.serve fun now _ => Nat.zero_le now
  rw [countedDisk_nil]
  exact (Lts.Reach.init (S := leaseSystem countedHost) (s := ⟨fun _ => none, 0⟩) fun _ => rfl).next hstep

/-- In every state that a run of requests reaches, each file passes the check it is read with, only a
managed workspace has operations, a binding that was released leaves none running, and no request id
has two. -/
theorem reached_files_sound {state : State} (h : (leaseSystem host).Reach disk)
    (hfile : disk.files key = some state) :
    validateLoadedState host key state = .ok () ∧ (state.operations ≠ [] → state.identity.isManaged) ∧
      (state.binding.status ≠ .active → state.busy = false) ∧
      (state.operations.map (·.requestIdDigest)).Nodup := by
  have hsound := reach_sound h key state hfile
  exact ⟨hsound.valid, hsound.managed, hsound.quiet, reach_distinct h key state hfile⟩

theorem counted_first : serve countedHost .v1 (countedEnv 0) (.begin_ (countedBegin 0))
    (countedDisk []).files = .ok (granted .v1 (countedOperation 0 0),
      some (countedKey, countedState [countedOperation 0 0])) :=
  counted_begin [] 0 0 (@counted_history_valid 0 0 (by decide) (by decide)) rfl (by decide)
    (@counted_next_valid 0 0 0 0 (by decide) (by decide) (by decide) (.inr (by decide)))

/-- The state has an operation that runs. -/
theorem reached_files_sound_counted :
    let state := countedState [countedOperation 0 0]
    validateLoadedState countedHost countedKey state = .ok () ∧ state.identity.isManaged ∧
      (state.operations.map (·.requestIdDigest)).Nodup := by
  obtain ⟨hvalid, hmanaged, -, hnodup⟩ := reached_files_sound
    (counted_reach.next (counted_step counted_first)) (countedDisk_file ..)
  exact ⟨hvalid, hmanaged (by simp [countedState]), hnodup⟩

end NilsCli.Workspace
