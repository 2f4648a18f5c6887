import NilsCli.Coordination.Mailbox

/-!
# Reading the inbox page by page (`mailbox.rs`)

`inbox` lists the messages of one recipient incarnation that match a filter, ordered by creation
time and id, and returns one page of them.
-/

namespace NilsCli.Coordination

open Lib

def cursorTtlSecs : Int := 60 * 60

def maxCursors : Nat := 4096

def maxPrincipalCursors : Nat := 128

def defaultPage : Nat := 50

def maxPage : Nat := 100

def cursorInvalid : CliError := .dataErr "cursor-invalid" "inbox cursor is invalid"

def MessageCategory.rank : MessageCategory → Nat
  | .uncategorized => 0
  | .progress => 1
  | .handoff => 2
  | .blocker => 3
  | .decision => 4
  | .report => 5

structure InboxArgs where
  sessionId : String
  incarnation : String
  state : Option MessageState
  categories : List MessageCategory
  limit : Option Nat
  cursor : Option String

variable (args : InboxArgs)

def InboxArgs.sortedCategories : List MessageCategory :=
  dedupBy (fun a b => decide (a = b)) (sortBy (fun a b => a.rank ≤ b.rank) args.categories)

def InboxArgs.selects (message : StoredMessage) : Bool :=
  message.addressedTo args.sessionId args.incarnation &&
    (args.state.all fun state => message.state = state) &&
    (args.sortedCategories.isEmpty ||
      message.category.getD .uncategorized ∈ args.sortedCategories)

def listedBefore (a b : StoredMessage) : Bool :=
  a.createdAtEpoch < b.createdAtEpoch ||
    (a.createdAtEpoch = b.createdAtEpoch && textLe a.messageId b.messageId)

def InboxArgs.listing (messages : List StoredMessage) : List StoredMessage :=
  sortBy listedBefore (messages.filter args.selects)

def InboxArgs.owns (cursor : InboxCursor) : Bool :=
  cursor.recipientSessionId = args.sessionId && cursor.recipientIncarnation = args.incarnation &&
    cursor.state = args.state && cursor.categories = args.sortedCategories

def InboxCursor.passed (cursor : InboxCursor) (message : StoredMessage) : Bool :=
  cursor.afterCreatedAtEpoch < message.createdAtEpoch ||
    (cursor.afterCreatedAtEpoch = message.createdAtEpoch &&
      textLt cursor.afterMessageId message.messageId)

/-- The index of the first message of the page. -/
def inboxStart (locked : Registry) (listing : List StoredMessage) (now : Int) :
    Except CliError Nat :=
  match args.cursor with
  | none => .ok 0
  | some key => do
    let cursor ← orErr (locked.cursors.lookup key) cursorInvalid
    ensure (args.owns cursor ∧ now < cursor.expiresAtEpoch) cursorInvalid
    pure (listing.findIdx cursor.passed)

/-- The cursor after this message. -/
def InboxArgs.cursorAfter (last : StoredMessage) (now : Int) : InboxCursor where
  recipientSessionId := args.sessionId
  recipientIncarnation := args.incarnation
  state := args.state
  categories := args.sortedCategories
  afterCreatedAtEpoch := last.createdAtEpoch
  afterMessageId := last.messageId
  expiresAtEpoch := i64Add now cursorTtlSecs

def InboxCursor.samePlace (a b : InboxCursor) : Bool :=
  a.recipientSessionId = b.recipientSessionId &&
    a.recipientIncarnation = b.recipientIncarnation && a.state = b.state &&
    a.categories = b.categories && a.afterCreatedAtEpoch = b.afterCreatedAtEpoch &&
    a.afterMessageId = b.afterMessageId

def existingCursor (cursors : Table String InboxCursor) (desired : InboxCursor) : Option String :=
  ((sortBy (fun a b => textLe a.1 b.1) cursors.entries).find? fun row =>
    row.2.samePlace desired).map (·.1)

def keepCursor (env : Env) (args : InboxArgs) (last : StoredMessage) (locked : Registry) :
    Except CliError (Registry × String) := do
  let desired := args.cursorAfter last env.now
  match existingCursor locked.cursors desired with
  | some key =>
    pure ({ locked with
      cursors := Table.modify key (fun cursor =>
        { cursor with expiresAtEpoch := desired.expiresAtEpoch }) locked.cursors }, key)
  | none =>
    let principalCursors := (locked.cursors.entries.filter fun row =>
      row.2.recipientSessionId = args.sessionId &&
        row.2.recipientIncarnation = args.incarnation).length
    ensure (Table.size locked.cursors < maxCursors)
      (quotaExceeded "coordination cursor quota exceeded" "cursors" (Table.size locked.cursors)
        maxCursors)
    ensure (principalCursors < maxPrincipalCursors)
      (quotaExceeded "coordination cursor quota exceeded" "recipient-cursors" principalCursors
        maxPrincipalCursors)
    pure ({ locked with cursors := locked.cursors.insert env.uuid desired }, env.uuid)

theorem keepCursor_eq {env : Env} {args : InboxArgs} {last : StoredMessage} {r r' : Registry}
    {key : String} (h : keepCursor env args last r = .ok (r', key)) :
    ∃ cursors, r' = { r with cursors := cursors } := by
  unfold keepCursor at h
  dsimp only at h
  split at h
  · cases h
    exact ⟨_, rfl⟩
  · simp only [bind_eq_ok] at h
    obtain ⟨_, -, _, -, h⟩ := h
    cases h
    exact ⟨_, rfl⟩

def inbox (env : Env) (args : InboxArgs) (registry : Registry) :
    Except CliError (Registry × Outcome) := do
  let limit := args.limit.getD defaultPage
  ensure (limit ≠ 0 ∧ limit ≤ maxPage)
    (.usageErr "cursor-invalid" "inbox limit must be between 1 and 100")
  ensure (args.state ≠ some .deleted)
    (.usageErr "cursor-invalid" "inbox state filter is invalid")
  let locked := cleanExpired env env.now registry
  ensure (env.capabilityRevalidated args.sessionId args.incarnation) unauthorized
  let listing := args.listing locked.messages
  let start ← inboxStart args locked listing env.now
  let page := (listing.drop start).take limit
  match page.getLast? with
  | none => pure (locked, .inbox (page.map metadata) none)
  | some last =>
    if start + page.length < listing.length then do
      let (locked, key) ← keepCursor env args last locked
      pure (locked, .inbox (page.map metadata) (some key))
    else pure (locked, .inbox (page.map metadata) none)

end NilsCli.Coordination
