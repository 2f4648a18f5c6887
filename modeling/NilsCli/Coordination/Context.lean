import NilsCli.Lib.Guard
import NilsCli.Lib.Text
import NilsCli.Coordination.Types

/-!
# Work contexts and conflict evaluation (`context.rs`)

A work context names the repositories, scopes and provider references a session works on.
-/

namespace NilsCli.Coordination

open Lib

variable (value : String)

def workContextInputVersion : String := "agent-session.work-context-input.v1"

def workContextVersion : String := "agent-session.work-context.v1"

def worktreeFingerprintEpoch : Nat := 1

def invalidContext (message : String) : CliError := .dataErr "invalid-work-context" message

def invalidScope (message : String) : CliError := .dataErr "invalid-scope" message

/-! ## Canonical fields -/

def boundedText (name value : String) (max : Nat) : Except CliError String := do
  let value := trim value
  ensure (value ≠ "" ∧ value.utf8ByteSize ≤ max ∧ ¬ value.toList.any isControl)
    (invalidContext (name ++ " is empty, too long, or contains controls"))
  pure value

def isKebab (c : Char) : Bool := isAsciiLower c || isAsciiDigit c || c = '-'

def boundedSlug (name value : String) (max : Nat) : Except CliError String := do
  let value := toAsciiLowercase (trim value)
  ensure (value ≠ "" ∧ value.utf8ByteSize ≤ max ∧ value.toList.all isKebab)
    (invalidContext (name ++ " must be lower-kebab ASCII"))
  pure value

def validSlugComponent : Bool :=
  value ≠ "" && value.utf8ByteSize ≤ 100 &&
    value.toList.all fun c => isKebab c || c = '_' || c = '.'

/-- Owner and name in lower case. -/
def canonicalRepository : Except CliError String :=
  let parts := splitAt (toAsciiLowercase (trim value)) '/'
  let owner := parts.headD ""
  let repo := parts.tail.headD ""
  if parts.length > 2 || !validSlugComponent owner || !validSlugComponent repo then
    .error (invalidContext "repository must be canonical owner/name")
  else .ok (owner ++ "/" ++ repo)

/-- The fingerprint of a worktree, with its epoch. -/
def canonicalWorktree : Except CliError String :=
  let value := trim value
  match splitAt value ':' with
  | [tag, epoch, digest] =>
    if tag ≠ "hmac-sha256" || epoch = "" || digest.utf8ByteSize ≠ 64 ||
        !digest.toList.all isAsciiHexDigit then
      .error (invalidContext "worktree fingerprint must use hmac-sha256:epoch:digest")
    else .ok (toAsciiLowercase value)
  | _ => .error (invalidContext "worktree fingerprint must use hmac-sha256:epoch:digest")

def fingerprintEpoch : Option Nat :=
  match splitAt value ':' with
  | tag :: epoch :: digest :: rest =>
    -- `splitn(3, ':')`: the third part keeps the later colons, which are no hex digits
    if tag = "hmac-sha256" && rest.isEmpty && digest.utf8ByteSize = 64 &&
        digest.toList.all isAsciiHexDigit then
      parseU64 epoch
    else none
  | _ => none

def pathForbidden : List Char := ['*', '?', '[', ']', '\x7b', '\x7d', '!']

/-- A path inside the repository without patterns and dot components. -/
def canonicalRelativePath : Except CliError String := do
  let value := replaceChar (trim value) '\\' '/'
  ensure (value ≠ "" ∧ ¬ startsWith value '/' ∧ ¬ startsWith value '~' ∧
      ¬ value.toList.any (fun c => c ∈ pathForbidden) ∧ ¬ value.toList.any isControl)
    (invalidScope "path scope must be a safe repository-relative path")
  ensure (¬ endsWith value '/') (invalidScope "path scope must not end with /")
  let components := splitAt value '/'
  ensure (¬ components.any fun c => c = "" || c = "." || c = "..")
    (invalidScope "path scope contains an invalid component")
  pure ("/".intercalate components)

def canonicalWorkMode : Option String :=
  if value ∈ ["direct", "issue", "program", "program/dispatch"] then some value else none

/-- A bounded collection in canonical form, sorted, without repetitions. -/
def canonicalizeUnique (values : List String) (max : Nat)
    (canonicalize : String → Except CliError String) : Except CliError (List String) := do
  ensure (values.length ≤ max) (invalidContext "work context exceeds collection limits")
  let canonical ← values.foldlM (fun seen value => do
    let value ← canonicalize value
    ensure (value ∉ seen) (invalidContext "work context contains a duplicate value")
    pure (seen ++ [value])) []
  pure (sortBy textLe canonical)

def ScopeKind.rank : ScopeKind → Nat
  | .repository => 0
  | .pathExact => 1
  | .pathPrefix => 2

def Scope.le (a b : Scope) : Bool :=
  a.kind.rank < b.kind.rank || (a.kind = b.kind &&
    (textLt a.repository b.repository ||
      (a.repository = b.repository && textLe a.value b.value)))

def ProviderRef.le (a b : ProviderRef) : Bool :=
  textLt a.kind b.kind || (a.kind = b.kind &&
    (textLt a.repository b.repository ||
      (a.repository = b.repository && a.number ≤ b.number)))

def canonicalProviderRef (error : String → CliError) (reference : ProviderRef) :
    Except CliError ProviderRef := do
  let kind ← boundedSlug "provider reference kind" reference.kind 32
  let repository ← canonicalRepository reference.repository
  ensure (reference.number ≠ 0) (error "provider reference number must be positive")
  pure ⟨kind, repository, reference.number⟩

/-- A scope of `noun` (a context's scope or an operation's target) in canonical form. -/
def canonicalScope (noun : String) (scope : Scope) : Except CliError Scope := do
  let repository ← canonicalRepository scope.repository
  let value ← match scope.kind with
    | .repository => do
      ensure (trim scope.value = ".") (invalidScope ("repository " ++ noun ++ " value must be ."))
      pure "."
    | .pathExact => canonicalRelativePath scope.value
    | .pathPrefix => canonicalRelativePath scope.value
  pure ⟨scope.kind, repository, value⟩

def workModeExpectation : String := "tier must be direct, issue, program, or program/dispatch"

/-- A declared work context in canonical form: every scope is of a declared repository. -/
def validateAndCanonicalize (input : WorkContextInput) : Except CliError WorkContextInput := do
  ensure (input.schemaVersion = workContextInputVersion)
    (.dataErr "unsupported-work-context-version" "unsupported work-context input schema")
  let intent ← boundedText "intent" input.intent 64
  let tier ← boundedText "tier" input.tier 16
  let tier ← orErr (canonicalWorkMode tier) (invalidContext workModeExpectation)
  let summary ← boundedText "summary" input.summary 240
  let repositories ← canonicalizeUnique input.repositories 8 canonicalRepository
  let worktrees ← canonicalizeUnique input.worktrees 8 canonicalWorktree
  ensure (input.planRefs = []) (invalidContext "plan references are retired for new work contexts")
  ensure (input.providerRefs.length ≤ 16 ∧ input.scopes.length ≤ 32)
    (invalidContext "work context exceeds collection limits")
  let providerRefs ← input.providerRefs.mapM (canonicalProviderRef invalidContext)
  ensure providerRefs.Nodup
    (invalidContext "work context contains a duplicate provider reference")
  let scopes ← input.scopes.mapM fun scope => do
    let scope ← canonicalScope "scope" scope
    ensure (scope.repository ∈ repositories)
      (invalidScope "scope repository is not declared by the context")
    pure scope
  ensure scopes.Nodup (invalidContext "work context contains a duplicate scope")
  pure { input with
    intent := intent
    tier := tier
    summary := summary
    repositories := repositories
    worktrees := worktrees
    providerRefs := sortBy ProviderRef.le providerRefs
    scopes := sortBy Scope.le scopes }

def canonicalizeTargets (targets : List Scope) : Except CliError (List Scope) := do
  ensure (targets.length ≤ 32) (invalidScope "operation targets may contain at most 32 scopes")
  -- every repository is canonicalized before the first target is
  let _ ← targets.mapM fun target => canonicalRepository target.repository
  let targets ← targets.mapM (canonicalScope "target")
  ensure targets.Nodup (invalidContext "work context contains a duplicate operation target")
  pure (sortBy Scope.le targets)

def canonicalizeProviderRefs (references : List ProviderRef) :
    Except CliError (List ProviderRef) := do
  ensure (references.length ≤ 16)
    (invalidScope "operation targets exceed the provider reference limit")
  let references ← references.mapM (canonicalProviderRef invalidScope)
  ensure references.Nodup
    (invalidContext "work context contains a duplicate provider reference")
  pure (sortBy ProviderRef.le references)

theorem validateAndCanonicalize_scope_repository {input context : WorkContextInput}
    (h : validateAndCanonicalize input = .ok context) {scope : Scope}
    (hs : scope ∈ context.scopes) : scope.repository ∈ context.repositories := by
  unfold validateAndCanonicalize at h
  simp only [bind_eq_ok, ensure_eq_ok, orErr_eq_ok, exists_const] at h
  obtain ⟨-, intent, -, tier, -, mode, -, summary, -, repositories, -, worktrees, -, -, -, refs, -,
    -, scopes, hscopes, -, h⟩ := h
  cases h
  obtain ⟨scope', -, hscope⟩ := mem_of_mapM_eq_ok hscopes (mem_sortBy.mp hs)
  simp only [bind_eq_ok, ensure_eq_ok, exists_const] at hscope
  obtain ⟨_, -, hmem, hscope⟩ := hscope
  cases hscope
  exact hmem

/-! ## Relations between scopes -/

/-- By whole components. -/
def pathIsWithin (path pre : String) : Bool :=
  path = pre || (stripPrefix? path pre).any fun suffix => suffix.head? = some '/'

/-- Two scopes share a path. -/
def scopesOverlap (left right : Scope) : Bool :=
  left.repository = right.repository &&
    match left.kind, right.kind with
    | .repository, _ => true
    | _, .repository => true
    | .pathExact, .pathExact => left.value = right.value
    | .pathExact, .pathPrefix => pathIsWithin left.value right.value
    | .pathPrefix, .pathExact => pathIsWithin right.value left.value
    | .pathPrefix, .pathPrefix =>
      pathIsWithin left.value right.value || pathIsWithin right.value left.value

/-- Whatever the target names is in the claim. -/
def scopeCovers (claim target : Scope) : Bool :=
  claim.repository = target.repository &&
    match claim.kind, target.kind with
    | .repository, _ => true
    | .pathExact, .pathExact => claim.value = target.value
    | .pathPrefix, .pathExact => pathIsWithin target.value claim.value
    | .pathPrefix, .pathPrefix => pathIsWithin target.value claim.value
    | _, _ => false

/-! ## Conflict evaluation -/

def reason (code : ReasonCode) (peer : WorkContextRecord) (repository : Option String) :
    ConflictReason :=
  ⟨code, peer.sessionId, repository⟩

def PeerProjection.ofRecord (peer : WorkContextRecord) : PeerProjection where
  sessionId := peer.sessionId
  claimId := peer.claimId
  intent := peer.intent
  tier := peer.tier
  repositories := peer.repositories
  providerRefs := peer.providerRefs
  planRefs := peer.planRefs
  scopes := peer.scopes
  summary := peer.summary
  expiresAtEpoch := peer.expiresAtEpoch

def worktreesComparable (worktrees : List String) : Bool :=
  worktrees.all fun fingerprint => fingerprintEpoch fingerprint = some worktreeFingerprintEpoch

/-- What two contexts have to say about a repository of both. -/
def repositoryReasons (candidate : WorkContextInput) (peer : WorkContextRecord)
    (repository : String) : List ConflictReason :=
  let candidateScopes := candidate.scopes.filter fun scope => scope.repository = repository
  let peerScopes := peer.scopes.filter fun scope => scope.repository = repository
  if candidateScopes.isEmpty || peerScopes.isEmpty then
    [reason .sameRepositoryIncompleteScope peer (some repository)]
  else if candidateScopes.any fun left => peerScopes.any fun right => scopesOverlap left right then
    [reason .overlappingScope peer (some repository)]
  else []

/-- Every reason against a peer. -/
def peerReasons (candidate : WorkContextInput) (peer : WorkContextRecord) :
    List ConflictReason :=
  (if worktreesComparable candidate.worktrees && worktreesComparable peer.worktrees &&
      candidate.worktrees.any (· ∈ peer.worktrees) then [reason .sameWorktree peer none] else []) ++
  (if candidate.providerRefs.any (· ∈ peer.providerRefs) then
    [reason .sameProviderRef peer none] else []) ++
  (candidate.repositories.filter (· ∈ peer.repositories)).flatMap (repositoryReasons candidate peer)

def ReasonCode.isConflict : ReasonCode → Bool
  | .sameWorktree | .sameProviderRef | .overlappingScope => true
  | .sameRepositoryIncompleteScope => false

def ReasonCode.text : ReasonCode → String
  | .sameWorktree => "same-worktree"
  | .sameProviderRef => "same-provider-ref"
  | .sameRepositoryIncompleteScope => "same-repository-incomplete-scope"
  | .overlappingScope => "overlapping-scope"

def ConflictReason.le (a b : ConflictReason) : Bool :=
  textLt a.code.text b.code.text || (a.code = b.code &&
    (textLt a.peerSessionId b.peerSessionId || (a.peerSessionId = b.peerSessionId &&
      match a.repository, b.repository with
      | none, _ => true
      | some _, none => false
      | some r, some r' => textLe r r')))

/-- The active claims of other sessions. -/
def evaluatedPeers (excluded : Option (String × String)) (active : List WorkContextRecord) :
    List WorkContextRecord :=
  active.filter fun peer =>
    !(excluded.any fun principal =>
      peer.sessionId = principal.1 && peer.sessionIncarnation = principal.2) &&
    peer.state = .active

/-- A context against the claims of the others: a conflict, a potential one, clear, or unknown where a
registry is incomplete. -/
def evaluate (excluded : Option (String × String)) (candidate : WorkContextInput)
    (active : List WorkContextRecord) (completeRegistry allowIncomplete : Bool) :
    ConflictEvaluation :=
  let seen := evaluatedPeers excluded active
  let peers := seen.filter fun peer => peer.schemaVersion = workContextVersion
  let effectiveComplete := completeRegistry &&
    seen.all (fun peer => peer.schemaVersion = workContextVersion) &&
    peers.all (fun peer =>
      worktreesComparable candidate.worktrees && worktreesComparable peer.worktrees)
  let reasons := dedupBy (fun a b => decide (a = b))
    (sortBy ConflictReason.le (peers.flatMap (peerReasons candidate)))
  let potential := peers.any fun peer =>
    (peerReasons candidate peer).any fun r => r.code = .sameRepositoryIncompleteScope
  let projections := dedupBy (fun a b => decide (a.sessionId = b.sessionId))
    (sortBy (fun a b => textLe a.sessionId b.sessionId)
      ((peers.filter fun peer => !(peerReasons candidate peer).isEmpty).map
        PeerProjection.ofRecord))
  let hasConflict := reasons.any fun r => r.code.isConflict
  { classification :=
      if hasConflict then .conflict
      else if potential then .potentialConflict
      else if !effectiveComplete && allowIncomplete then .noKnownConflict
      else if !effectiveComplete then .unknown
      else .clear
    complete := effectiveComplete
    reasons := reasons
    peers := projections }

end NilsCli.Coordination
