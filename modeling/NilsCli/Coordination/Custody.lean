import NilsCli.Coordination.MailLife

/-!
# The custody of a forwarded message

A message passes from its recipient to others by forwards, and between the incarnations of one
recipient by resumes.
-/

namespace NilsCli.Coordination

open Lib List

variable {transfer : RecipientTransfer} {first : Option String}

variable {hop : Hop} {s s' : ChainState} {start : String}

variable {codec : Codec} {provenance : Provenance} {holder : Address} {body : String}
  {expiry now t : Int}

/-! ## Hand-overs -/

/-- The transfers hand the message from one incarnation of a session to the next. -/
def Handed : Address → List RecipientTransfer → Address → Prop
  | a, [], b => a = b
  | a, transfer :: transfers, b => transfer.sender = a ∧ sameSession a transfer.recipient ∧
      a.sessionIncarnation ≠ transfer.recipient.sessionIncarnation ∧
      Handed transfer.recipient transfers b

def Contiguous : Address → List Hop → Address → Prop
  | a, [], b => a = b
  | a, hop :: hops, b => hop.forwarder = a ∧
      ∃ c, Handed hop.recipient hop.recipientTransfers c ∧ Contiguous c hops b

def DistinctSessions (addresses : List Address) : Prop :=
  addresses.Pairwise fun a b => ¬ sameSession a b

instance (addresses : List Address) : Decidable (DistinctSessions addresses) :=
  inferInstanceAs (Decidable (addresses.Pairwise _))

def Provenance.custodians (provenance : Provenance) : List Address :=
  provenance.originalRecipient :: provenance.hops.map (·.recipient)

/-- The original sender, if it is a session. -/
def Provenance.senders (provenance : Provenance) : List Address :=
  match provenance.originalSender with
  | .session sender => [sender]
  | .service _ => []

/-! ## The validator -/

theorem transferStep_spec (h : transferStep codec hop now s transfer = some s') :
    transfer.sender = s.previous ∧ sameSession s.previous transfer.recipient ∧
      s.previous.sessionIncarnation ≠ transfer.recipient.sessionIncarnation ∧
      s'.previous = transfer.recipient ∧ s'.participants = s.participants := by
  unfold transferStep at h
  split at h
  case isTrue hc =>
    cases h
    simp only [Bool.and_eq_true, decide_eq_true_eq] at hc
    obtain ⟨⟨⟨⟨⟨⟨⟨⟨⟨⟨⟨⟨heq, -⟩, -⟩, -⟩, hsame⟩, hne⟩, -⟩, -⟩, -⟩, -⟩, -⟩, -⟩, -⟩ := hc
    exact ⟨heq, heq ▸ hsame, heq ▸ hne, rfl, rfl⟩
  case isFalse => cases h

theorem transferStep_mono (hle : now ≤ t) (h : transferStep codec hop now s transfer = some s') :
    transferStep codec hop t s transfer = some s' := by
  have hskew := i64Add_mono_left 60 hle
  unfold transferStep at h ⊢
  split at h
  case isTrue hc =>
    rw [if_pos]
    · exact h
    · simp only [Bool.and_eq_true, decide_eq_true_eq] at hc ⊢
      exact ⟨hc.1, by omega⟩
  case isFalse => cases h

theorem handed_of_transfers {transfers : List RecipientTransfer}
    (h : transfers.foldlM (transferStep codec hop now) s = some s') :
    Handed s.previous transfers s'.previous ∧ s'.participants = s.participants := by
  induction transfers generalizing s with
  | nil =>
    cases h
    exact ⟨rfl, rfl⟩
  | cons transfer transfers ih =>
    rw [foldlM_cons] at h
    obtain ⟨s₁, hstep, hrest⟩ := Option.bind_eq_some_iff.mp h
    obtain ⟨heq, hsame, hne, hprevious, hparticipants⟩ := transferStep_spec hstep
    obtain ⟨hhanded, hp⟩ := ih hrest
    rw [hprevious] at hhanded
    exact ⟨⟨heq, hsame, hne, hhanded⟩, hp.trans hparticipants⟩

/-- A fold that succeeds still does when each step does. -/
theorem foldlM_mono {α β : Type} {f g : β → α → Option β} (hfg : ∀ b a c, f b a = some c → g b a = some c)
    {xs : List α} {b c : β} (h : xs.foldlM f b = some c) : xs.foldlM g b = some c := by
  induction xs generalizing b with
  | nil => exact h
  | cons x xs ih =>
    rw [foldlM_cons] at h ⊢
    obtain ⟨b', hstep, hrest⟩ := Option.bind_eq_some_iff.mp h
    exact Option.bind_eq_some_iff.mpr ⟨b', hfg b x b' hstep, ih hrest⟩

theorem hopStep_spec (h : hopStep codec first now s hop = some s') :
    hop.forwarder = s.previous ∧ Handed hop.recipient hop.recipientTransfers s'.previous ∧
      s'.participants = s.participants ++ [hop.recipient] ∧
      ∀ participant ∈ s.participants, ¬ sameSession participant hop.recipient := by
  unfold hopStep at h
  split at h
  case isTrue hc =>
    simp only [Bool.and_eq_true, decide_eq_true_eq, Bool.not_eq_true', any_eq_false] at hc
    obtain ⟨hhanded, hparticipants⟩ := handed_of_transfers h
    exact ⟨hc.1.1.1.1.1.1.1.1.1, hhanded, hparticipants, hc.2⟩
  case isFalse => cases h

theorem hopStep_mono (hle : now ≤ t)
    (h : hopStep codec first now s hop = some s') : hopStep codec first t s hop = some s' := by
  have hskew := i64Add_mono_left 60 hle
  unfold hopStep at h ⊢
  split at h
  case isTrue hc =>
    rw [if_pos]
    · exact foldlM_mono (fun _ _ _ => transferStep_mono hle) h
    · simp only [Bool.and_eq_true, decide_eq_true_eq] at hc ⊢
      exact ⟨⟨hc.1.1, by omega⟩, hc.2⟩
  case isFalse => cases h

theorem contiguous_of_hops {hops : List Hop}
    (h : hops.foldlM (hopStep codec none now) s = some s') :
    Contiguous s.previous hops s'.previous ∧
      (∀ hop ∈ hops, ∀ participant ∈ s.participants, ¬ sameSession participant hop.recipient) ∧
      DistinctSessions (hops.map (·.recipient)) := by
  induction hops generalizing s with
  | nil =>
    cases h
    exact ⟨rfl, by simp, List.Pairwise.nil⟩
  | cons hop hops ih =>
    rw [foldlM_cons] at h
    obtain ⟨s₁, hstep, hrest⟩ := Option.bind_eq_some_iff.mp h
    obtain ⟨heq, hhanded, hparticipants, hnew⟩ := hopStep_spec hstep
    obtain ⟨hcontiguous, hlater, hdistinct⟩ := ih hrest
    rw [hparticipants] at hlater
    refine ⟨⟨heq, _, hhanded, hcontiguous⟩, fun other hother p hp => ?_, ?_⟩
    · rcases List.mem_cons.mp hother with rfl | hother
      · exact hnew p hp
      · exact hlater other hother p (mem_append_left _ hp)
    · rw [map_cons]
      refine List.Pairwise.cons (fun a ha => ?_) hdistinct
      obtain ⟨other, hother, rfl⟩ := List.mem_map.mp ha
      exact hlater other hother _ (by simp)

theorem chain_spec (h : chain codec provenance now = some s) :
    provenance.hops ≠ [] ∧ Contiguous provenance.originalRecipient provenance.hops s.previous ∧
      DistinctSessions provenance.custodians ∧
      ∀ sender ∈ provenance.senders, ∀ hop ∈ provenance.hops, ¬ sameSession sender hop.recipient := by
  unfold chain at h
  dsimp only at h
  cases hhops : provenance.hops with
  | nil => rw [hhops] at h; cases h
  | cons hop hops =>
    rw [hhops] at h
    obtain ⟨s₁, hstep, hrest⟩ := Option.bind_eq_some_iff.mp h
    obtain ⟨heq, hhanded, hparticipants, hnew⟩ := hopStep_spec hstep
    obtain ⟨hcontiguous, hlater, hdistinct⟩ := contiguous_of_hops hrest
    rw [hparticipants] at hlater
    have hall : ∀ p ∈ provenance.originalRecipient :: provenance.senders,
        ∀ other ∈ hop :: hops, ¬ sameSession p other.recipient := by
      intro p hp other hother
      rcases List.mem_cons.mp hother with rfl | hother
      · exact hnew p hp
      · exact hlater other hother p (mem_append_left _ hp)
    refine ⟨by simp, ⟨heq, _, hhanded, hcontiguous⟩, ?_, fun sender hsender other hother => ?_⟩
    · rw [Provenance.custodians, hhops, map_cons]
      refine List.Pairwise.cons (fun a ha => ?_) (List.Pairwise.cons (fun a ha => ?_) hdistinct)
      · rw [← map_cons] at ha
        obtain ⟨other, hother, rfl⟩ := List.mem_map.mp ha
        exact hall _ mem_cons_self other hother
      · obtain ⟨other, hother, rfl⟩ := List.mem_map.mp ha
        exact hlater other hother _ (by simp)
    · exact hall sender (mem_cons_of_mem _ hsender) other hother

theorem chain_mono (hle : now ≤ t) (h : chain codec provenance now = some s) :
    chain codec provenance t = some s := by
  unfold chain at h ⊢
  dsimp only at h ⊢
  split at h
  · cases h
  · obtain ⟨s₁, hstep, hrest⟩ := Option.bind_eq_some_iff.mp h
    exact Option.bind_eq_some_iff.mpr ⟨s₁, hopStep_mono hle hstep,
      foldlM_mono (fun _ _ _ => hopStep_mono hle) hrest⟩

theorem valid_mono (hle : now ≤ t) (h : provenance.valid codec holder body expiry now) :
    provenance.valid codec holder body expiry t := by
  unfold Provenance.valid at h ⊢
  rw [Bool.and_eq_true] at h ⊢
  obtain ⟨s, hs, hholder⟩ := (Option.any_eq_true _ _).mp h.2
  exact ⟨h.1, (Option.any_eq_true _ _).mpr ⟨s, chain_mono hle hs, hholder⟩⟩

/-- What the validator accepts. -/
structure Accepted (provenance : Provenance) (holder : Address) (body : String) (expiry : Int) :
    Prop where
  contiguous : Contiguous provenance.originalRecipient provenance.hops holder
  forwarded : provenance.hops ≠ []
  distinct : DistinctSessions provenance.custodians
  senders : ∀ sender ∈ provenance.senders, ∀ hop ∈ provenance.hops,
    ¬ sameSession sender hop.recipient
  body : provenance.bodySha256 = digestBytes body
  expiry : expiry ≤ provenance.originalExpiresAtEpoch
  hops : provenance.hops.length ≤ maxHops
  transfers : (provenance.hops.map fun hop => hop.recipientTransfers.length).sum ≤
    maxRecipientTransfers

theorem accepted_of_valid (h : provenance.valid codec holder body expiry now) :
    Accepted provenance holder body expiry := by
  unfold Provenance.valid at h
  simp only [Bool.and_eq_true, decide_eq_true_eq] at h
  obtain ⟨⟨⟨⟨⟨⟨-, hbody⟩, -⟩, -⟩, hexpiry⟩, hhops⟩, htransfers⟩ := h.1
  obtain ⟨s, hs, hholder⟩ := (Option.any_eq_true _ _).mp h.2
  obtain ⟨hne, hcontiguous, hdistinct, hsenders⟩ := chain_spec hs
  rw [of_decide_eq_true hholder] at hcontiguous
  exact ⟨hcontiguous, hne, hdistinct, hsenders, hbody, hexpiry, hhops, htransfers⟩

/-! ## Custody -/

variable {original message message' : StoredMessage} {machine : String}

structure ForwardedCopy (source copy : StoredMessage) (provenance : Provenance)
    (destination : Address) : Prop where
  session : copy.recipientSessionId = destination.sessionId
  incarnation : copy.recipientIncarnation = destination.sessionIncarnation
  forwarding : copy.forwarding = some provenance
  expires : copy.expiresAtEpoch = source.expiresAtEpoch
  body : copy.body = source.body

structure SameMail (m m' : StoredMessage) : Prop where
  id : m'.messageId = m.messageId
  sender : m'.senderSessionId = m.senderSessionId
  senderIncarnation : m'.senderIncarnation = m.senderIncarnation
  session : m'.recipientSessionId = m.recipientSessionId
  incarnation : m'.recipientIncarnation = m.recipientIncarnation
  created : m'.createdAtEpoch = m.createdAtEpoch
  remoteCreated : m'.remoteCreatedAtEpoch = m.remoteCreatedAtEpoch
  expires : m'.expiresAtEpoch = m.expiresAtEpoch
  forwarding : m'.forwarding = m.forwarding
  body : m'.body = m.body

def holderOf (machine : String) (message : StoredMessage) : Address :=
  ⟨machine, message.recipientSessionId, message.recipientIncarnation⟩

inductive Custody (codec : Codec) (original : StoredMessage) (start : String) :
    String → Int → StoredMessage → Prop
  | received (now : Int) : Custody codec original start start now original
  | change {machine : String} {now : Int} {m m' : StoredMessage}
      (h : Custody codec original start machine now m) (hsame : SameMail m m') :
      Custody codec original start machine now m'
  | forward {machine : String} {now now' : Int} {m copy : StoredMessage} {destination : Address}
      {provenance : Provenance} (h : Custody codec original start machine now m)
      (happend : appendHop codec m (holderOf machine m) destination now' = .ok provenance)
      (hcopy : ForwardedCopy m copy provenance destination) :
      Custody codec original start destination.machine now' copy
  | carry {machine sessionId previous current : String} {now now' createdMillis : Int}
      {m m' : StoredMessage} (h : Custody codec original start machine now m)
      (hcarry : carriedMessage codec machine sessionId previous current createdMillis now' m =
        some m') :
      Custody codec original start machine now' m'

/-- The provenance names the original. -/
structure NamesOriginal (original : StoredMessage) (start : String) (provenance : Provenance) :
    Prop where
  id : provenance.originalMessageId = original.messageId
  sender : provenance.originalSender = senderOrigin original start
  created : provenance.originalCreatedAtEpoch =
    original.remoteCreatedAtEpoch.getD original.createdAtEpoch
  expires : provenance.originalExpiresAtEpoch = original.expiresAtEpoch
  body : provenance.bodySha256 = digestBytes original.body

/-- What holds of every message in custody. -/
structure InCustody (codec : Codec) (original : StoredMessage) (start machine : String) (now : Int)
    (m : StoredMessage) : Prop where
  body : m.body = original.body
  expires : m.expiresAtEpoch = original.expiresAtEpoch
  unforwarded : m.forwarding = none → machine = start ∧ m.messageId = original.messageId ∧
    m.senderSessionId = original.senderSessionId ∧
    m.senderIncarnation = original.senderIncarnation ∧ m.createdAtEpoch = original.createdAtEpoch ∧
    m.remoteCreatedAtEpoch = original.remoteCreatedAtEpoch
  forwarded : ∀ provenance, m.forwarding = some provenance →
    NamesOriginal original start provenance ∧
      provenance.valid codec (holderOf machine m) m.body m.expiresAtEpoch now

theorem appendHop_spec {destination : Address}
    (h : InCustody codec original start machine now message)
    (happend : appendHop codec message (holderOf machine message) destination t = .ok provenance) :
    NamesOriginal original start provenance ∧
      provenance.valid codec destination message.body message.expiresAtEpoch t := by
  unfold appendHop at happend
  simp only [bind_eq_ok, ensure_eq_ok, exists_const] at happend
  obtain ⟨-, -, hvalid, heq⟩ := happend
  cases heq
  refine ⟨?_, hvalid⟩
  cases hforwarding : message.forwarding with
  | some existing =>
    have hnames := (h.forwarded existing hforwarding).1
    exact ⟨hnames.id, hnames.sender, hnames.created, hnames.expires, hnames.body⟩
  | none =>
    obtain ⟨rfl, hid, hsender, hincarnation, hcreated, hremote⟩ := h.unforwarded hforwarding
    refine ⟨hid, ?_, ?_, h.expires, congrArg digestBytes h.body⟩
    · change senderOrigin message _ = _
      unfold senderOrigin
      rw [hsender, hincarnation]
      rfl
    · change message.remoteCreatedAtEpoch.getD message.createdAtEpoch = _
      rw [hremote, hcreated]

theorem recordResumeTransfer_spec {current : String} {forwarding : Option Provenance}
    (h : InCustody codec original start machine now message)
    (hrecord : recordResumeTransfer codec message machine current t = some forwarding) :
    (forwarding = none → message.forwarding = none) ∧
      ∀ provenance, forwarding = some provenance → NamesOriginal original start provenance ∧
        provenance.valid codec ⟨machine, message.recipientSessionId, current⟩ message.body
          message.expiresAtEpoch t := by
  unfold recordResumeTransfer at hrecord
  cases hforwarding : message.forwarding with
  | none =>
    rw [hforwarding] at hrecord
    cases hrecord
    exact ⟨fun _ => rfl, fun _ heq => nomatch heq⟩
  | some existing =>
    rw [hforwarding] at hrecord
    dsimp only at hrecord
    split_ifs at hrecord with hrefused hvalid
    cases hrecord
    refine ⟨fun hnone => (by cases hnone), fun provenance heq => ?_⟩
    cases heq
    have hnames := (h.forwarded existing hforwarding).1
    exact ⟨⟨hnames.id, hnames.sender, hnames.created, hnames.expires, hnames.body⟩, hvalid⟩

theorem inCustody_of_custody (horiginal : original.forwarding = none)
    (h : Custody codec original start machine now message) :
    InCustody codec original start machine now message := by
  induction h with
  | received now =>
    refine ⟨rfl, rfl, fun _ => ⟨rfl, rfl, rfl, rfl, rfl, rfl⟩, fun provenance heq => ?_⟩
    rw [horiginal] at heq
    cases heq
  | @change machine now m m' _ hsame ih =>
    refine ⟨hsame.body.trans ih.body, hsame.expires.trans ih.expires, fun hnone => ?_,
      fun provenance heq => ?_⟩
    · obtain ⟨hstart, hid, hsender, hincarnation, hcreated, hremote⟩ :=
        ih.unforwarded (hsame.forwarding ▸ hnone)
      exact ⟨hstart, hsame.id.trans hid, hsame.sender.trans hsender,
        hsame.senderIncarnation.trans hincarnation, hsame.created.trans hcreated,
        hsame.remoteCreated.trans hremote⟩
    · obtain ⟨hnames, hvalid⟩ := ih.forwarded provenance (hsame.forwarding ▸ heq)
      refine ⟨hnames, ?_⟩
      rw [holderOf, hsame.session, hsame.incarnation, hsame.body, hsame.expires]
      exact hvalid
  | @forward machine now now' m copy destination provenance _ happend hcopy ih =>
    obtain ⟨hnames, hvalid⟩ := appendHop_spec ih happend
    refine ⟨hcopy.body.trans ih.body, hcopy.expires.trans ih.expires, fun hnone => ?_,
      fun provenance' heq => ?_⟩
    · rw [hcopy.forwarding] at hnone
      cases hnone
    · rw [hcopy.forwarding] at heq
      cases heq
      rw [holderOf, hcopy.session, hcopy.incarnation, hcopy.body, hcopy.expires]
      exact ⟨hnames, hvalid⟩
  | @carry machine sessionId previous current now now' createdMillis m m' _ hcarry ih =>
    unfold carriedMessage at hcarry
    split at hcarry
    case isTrue => cases hcarry
    case isFalse =>
      obtain ⟨forwarding, hrecord, rfl⟩ := Option.map_eq_some_iff.mp hcarry
      obtain ⟨hnone, hsome⟩ := recordResumeTransfer_spec ih hrecord
      exact ⟨ih.body, ih.expires, fun hforwarding => ih.unforwarded (hnone hforwarding), hsome⟩

/-! ## Result -/

/-- The provenance of a message in custody names the original, is accepted for the holder then and
later, and the message keeps the expiry and the body of the original. What the validator accepts
is a contiguous chain from the original recipient to the holder within its limits; its custodians
are sessions of their own, and no hop goes back to the original sender. -/
theorem custody_chain :
    (∀ (original message : StoredMessage) (start machine : String) (now : Int)
      (provenance : Provenance), original.forwarding = none →
      Custody codec original start machine now message → message.forwarding = some provenance →
      NamesOriginal original start provenance ∧ message.body = original.body ∧
        message.expiresAtEpoch = original.expiresAtEpoch ∧
        ∀ t, now ≤ t → provenance.valid codec (holderOf machine message) message.body
          message.expiresAtEpoch t) ∧
    ∀ (provenance : Provenance) (holder : Address) (body : String) (expiry now : Int),
      provenance.valid codec holder body expiry now → Accepted provenance holder body expiry := by
  refine ⟨?_, fun _ _ _ _ _ => accepted_of_valid⟩
  intro original message start machine now provenance horiginal hcustody hforwarding
  have hin := inCustody_of_custody horiginal hcustody
  obtain ⟨hnames, hvalid⟩ := hin.forwarded provenance hforwarding
  exact ⟨hnames, hin.body, hin.expires, fun t hle => valid_mono hle hvalid⟩

/-! A session of the sample host writes to itself and forwards what it wrote. -/

def noteId : String := "00000000-0000-4000-8000-000000000001"

def copyId : String := "00000000-0000-4000-8000-000000000002"

def ownNote : SendArgs := { sampleSend 1 with recipientId := "alpha" }

def forwardedNote : SendArgs :=
  { sampleSend 1 with
    kind := .forward
    idempotencyKey := "forward-key-1"
    forward := some ⟨noteId, 1, []⟩ }

def forwardRun : List (Env × Section) :=
  [(sampleEnv 1000 "id-1", .provision ⟨sampleSession "alpha" alpha_ne, none, "token-alpha", true⟩),
    (sampleEnv 1001 "id-2", .provision ⟨sampleSession "beta" beta_ne, none, "token-beta", true⟩),
    (sampleEnv 1002 noteId, .send ownNote),
    (sampleEnv 1003 copyId, .send forwardedNote)]

def forwardState : State := execAll sampleCodec forwardRun ⟨Registry.empty, []⟩

theorem custody_chain_sample :
    ∃ original ∈ forwardState.registry.messages, ∃ provenance,
      NamesOriginal original "host" provenance ∧ provenance.hops.length = 1 ∧
        ∀ t, 1003 ≤ t → provenance.valid sampleCodec ⟨"host", "beta", "launch-1"⟩ original.body
          original.expiresAtEpoch t := by
  have hnote : (forwardState.registry.messages.head?.any fun m => m.forwarding = none ∧
      ((appendHop sampleCodec m (holderOf "host" m) ⟨"host", "beta", "launch-1"⟩ 1003).toOption.any
        fun p => p.hops.length = 1)) = true := by decide +kernel
  obtain ⟨original, hhead, h⟩ := (Option.any_eq_true _ _).mp hnote
  obtain ⟨hnone, happend⟩ := of_decide_eq_true h
  obtain ⟨provenance, hsome, hhops⟩ := (Option.any_eq_true _ _).mp happend
  have hcustody : Custody sampleCodec original "host" "host" 1003
      { original with
        recipientSessionId := "beta"
        recipientIncarnation := "launch-1"
        forwarding := some provenance } :=
    .forward (.received 1002) (ok_of_toOption hsome) ⟨rfl, rfl, rfl, rfl, rfl⟩
  obtain ⟨hnames, -, -, hvalid⟩ := (@custody_chain sampleCodec).1 original _ "host" "host" 1003
    provenance hnone hcustody rfl
  exact ⟨original, List.mem_of_mem_head? hhead, provenance, hnames, of_decide_eq_true hhops, hvalid⟩

/-- The sender of the note is its first custodian, and the provenance of its copy is accepted. -/
theorem self_sent_forwarded :
    (system sampleCodec).Reach forwardState ∧
    ∃ message ∈ forwardState.registry.messages, ∃ provenance,
      message.forwarding = some provenance ∧
      provenance.valid sampleCodec (holderOf "host" message) message.body message.expiresAtEpoch
        1003 = true ∧
      ¬ DistinctSessions (provenance.senders ++ provenance.custodians) := by
  refine ⟨reach_execAll (by decide +kernel), ?_⟩
  have hcopy : (forwardState.registry.messages.any fun m => m.forwarding.any fun p =>
      p.valid sampleCodec (holderOf "host" m) m.body m.expiresAtEpoch 1003 ∧
        ¬ DistinctSessions (p.senders ++ p.custodians)) = true := by decide +kernel
  obtain ⟨message, hm, h⟩ := List.any_eq_true.mp hcopy
  obtain ⟨provenance, hforwarding, h⟩ := (Option.any_eq_true _ _).mp h
  exact ⟨message, hm, provenance, hforwarding, of_decide_eq_true h⟩

end NilsCli.Coordination
