import NilsCli.Coordination.LostWakeup

/-!
# Messages over whole runs

A section changes the messages by posts (`SectionMoves.posts`).
-/

namespace NilsCli.Coordination

open Lib

variable {codec : Codec} {env : Env} {renews : OperationLease → Prop} {r r' : Registry}
  {messages messages' : List StoredMessage}

/-! ## Sections change messages by posts -/

theorem Move.posts (h : Move codec env renews r r') : Posts env r.messages r'.messages := by
  cases h with
  | mail messages rejections notifications hk hp => exact hp
  | store key digest outcome hop free hstore =>
    obtain ⟨receipts, evictions, rfl, -⟩ := storeReceipt_spec hstore
    exact .refl
  | accept envelope outcome free hstore =>
    obtain ⟨receipts, evictions, rfl, -⟩ := storeReceipt_spec hstore
    exact .refl
  | drain event lease now hnow hevent hlease accepts hstore =>
    obtain ⟨receipts, evictions, rfl, -⟩ := storeReceipt_spec hstore
    exact .refl
  | fingerprint | dropCursors | keepCursor | dropReceipts | leases | claims | endWork
    | retireClaims | dropEvents | addEvent | brokers => exact .refl

theorem Moves.posts (h : Moves codec env renews r r') : Posts env r.messages r'.messages := by
  induction h with
  | refl => exact .refl
  | tail _ hm ih => exact ih.trans hm.posts

theorem SectionMoves.posts (h : SectionMoves codec env renews r r') :
    SectionPosts env r.messages r'.messages := by
  obtain ⟨r₁, r₂, h₁, hadd, h₂⟩ := h
  have hp₁ := Moves.posts h₁
  have hp₂ := Moves.posts h₂
  rcases hadd with rfl | hadd
  · exact ⟨_, _, hp₁, .inl rfl, hp₂⟩
  · cases hadd with
    | claim | lease => exact ⟨_, _, hp₁, .inl rfl, hp₂⟩
    | message messages message rejections notifications hk hp hnew =>
      exact ⟨messages, _, hp₁.trans hp, .inr ⟨message, hnew, rfl⟩, hp₂⟩

/-! ## Identity -/

theorem Posts.ids_sublist (h : Posts env messages messages') :
    (messages'.map (·.messageId)).Sublist (messages.map (·.messageId)) := by
  induction h with
  | refl => exact List.Sublist.refl _
  | tail _ he ih => exact (he.keys_sublist _ fun _ _ hstep => hstep.same.1).trans ih

/-- Only a terminal message has a terminal time. -/
def MessagesOpen (messages : List StoredMessage) : Prop :=
  ∀ m ∈ messages, ¬ m.state.terminal → m.terminalAtEpoch = none

theorem MessagesOpen.posts (h : MessagesOpen messages) (hp : Posts env messages messages') :
    MessagesOpen messages' := by
  induction hp with
  | refl => exact h
  | tail _ he ih =>
    intro m hm ht
    obtain ⟨x, hx, hstep⟩ := he.mem hm
    exact hstep.terminalAt (ih x hx) ht

/-- Only a terminal lease has a terminal time. -/
def LeasesOpen (r : Registry) : Prop :=
  ∀ lease ∈ r.operations, lease.nonterminal → lease.terminalAtEpoch = none

theorem LeaseStep.terminalAt {pends : OperationLease → Prop} {x y : OperationLease}
    (h : LeaseStep renews pends x y) (hx : x.nonterminal → x.terminalAtEpoch = none)
    (hy : y.nonterminal) : y.terminalAtEpoch = none := by
  have hxn := h.nonterminal_of hy
  cases h with
  | stay | renew | expire | pend => exact hx hxn
  | finish h state hs => exact absurd hy hs
  | stamp h => exact absurd hxn h

theorem LeasesOpen.moves (h : LeasesOpen r) (hm : Moves codec env renews r r') :
    LeasesOpen r' := by
  induction hm with
  | refl => exact h
  | tail _ hmove ih =>
    intro y hy hn
    obtain ⟨x, hx, hstep⟩ := hmove.leaseSteps.mem hy
    exact hstep.terminalAt (ih x hx) hn

theorem LeasesOpen.add (h : LeasesOpen r) (ha : Add env r r') : LeasesOpen r' := by
  cases ha with
  | claim | message => exact h
  | lease claim lease hd =>
    intro y hy hn
    rcases List.mem_append.mp hy with hy | hy
    · exact h y hy hn
    · rw [List.mem_singleton.mp hy]
      exact hd.terminal

structure WellKept (r : Registry) : Prop where
  ids : (r.messages.map (·.messageId)).Nodup
  messages : MessagesOpen r.messages
  leases : LeasesOpen r

theorem WellKept.sectionMoves (h : WellKept r) (huuid : ∀ m ∈ r.messages, m.messageId ≠ env.uuid)
    (hs : SectionMoves codec env renews r r') : WellKept r' := by
  have hleases : LeasesOpen r' := by
    obtain ⟨r₁, r₂, h₁, hadd, h₂⟩ := hs
    have hopen := h.leases.moves h₁
    rcases hadd with rfl | hadd
    · exact hopen.moves h₂
    · exact (hopen.add hadd).moves h₂
  obtain ⟨before, after, hp, hadd, hp'⟩ := hs.posts
  have hids := hp.ids_sublist
  rcases hadd with rfl | ⟨message, hnew, rfl⟩
  · exact ⟨((hp'.ids_sublist).trans hids).nodup h.ids, (h.messages.posts hp).posts hp', hleases⟩
  · have hfresh : message.messageId ∉ before.map (·.messageId) := by
      intro hmem
      obtain ⟨other, hother, heq⟩ := List.mem_map.mp hmem
      rcases hnew.fresh with hid | hno
      · obtain ⟨m, hm, hmid⟩ := List.mem_map.mp (hids.subset hmem)
        exact huuid m hm (hmid.trans hid)
      · exact hno other hother heq
    refine ⟨hp'.ids_sublist.nodup (nodup_append_key (hids.nodup h.ids) hfresh), ?_, hleases⟩
    refine MessagesOpen.posts (fun m hm ht => ?_) hp'
    rcases List.mem_append.mp hm with hm | hm
    · exact h.messages.posts hp m hm ht
    · rw [List.mem_singleton.mp hm]
      exact hnew.terminal

/-! ## Runs -/

def FreshId (l : Env × Section) (s : State) : Prop :=
  ∀ m ∈ s.registry.messages, m.messageId ≠ l.1.uuid

instance (l : Env × Section) (s : State) : Decidable (FreshId l s) :=
  inferInstanceAs (Decidable (∀ m ∈ s.registry.messages, m.messageId ≠ l.1.uuid))

def freshSystem (codec : Codec) : Lts := (system codec).restrict FreshId

theorem wellKept_of_reach {s : State} (h : (freshSystem codec).Reach s) : WellKept s.registry := by
  have hboth := Lts.Reach.invariant (S := freshSystem codec)
    (I := fun s => Sound s ∧ WellKept s.registry) ?_ ?_ h
  · exact hboth.2
  · rintro s rfl
    refine ⟨sound_of_reach (Lts.Reach.init (S := system codec) rfl), List.nodup_nil, ?_, ?_⟩
    · exact fun m hm => nomatch hm
    · exact fun lease hl => nomatch hl
  · rintro l s s' ⟨hs, hw⟩ ⟨huuid, hst⟩
    refine ⟨hs.step hst, ?_⟩
    obtain ⟨-, rfl⟩ := hst
    exact hw.sectionMoves huuid (exec_moves hs.work l.2)

/-- A session sends a message to another one, for the witnesses of this and later modules. -/
def mailRun : List (Env × Section) :=
  [(sampleEnv 1000 "id-1", .provision ⟨sampleSession "alpha" alpha_ne, none, "token-alpha", true⟩),
    (sampleEnv 1001 "id-2", .provision ⟨sampleSession "beta" beta_ne, none, "token-beta", true⟩),
    (sampleEnv 1002 "id-3", .send (sampleSend 1))]

end NilsCli.Coordination
