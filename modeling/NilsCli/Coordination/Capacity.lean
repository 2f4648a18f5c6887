import NilsCli.Coordination.MailLife

/-!
# The capacity of the mailbox

In every registry of a run whose clock does not run backwards, the messages that count toward the
quota of a session are within its count and its bytes, and the bodies are within the bytes of the
registry.
-/

namespace NilsCli.Coordination

open Lib List

variable {codec : Codec} {env : Env} {t : Int} {messages messages' : List StoredMessage}

/-! ## The invariant -/

structure WithinLimits (t : Int) (messages : List StoredMessage) : Prop where
  count : ∀ recipient, (quotaSizes t messages recipient).length ≤ maxSessionMessages
  bytes : ∀ recipient, (quotaSizes t messages recipient).sum ≤ maxSessionBytes
  total : (messages.map (·.bodyBytes)).sum ≤ maxRegistryBytes
  present : ∀ m ∈ messages, m.state ≠ .deleted

theorem storedBytes_eq (h : ∀ m ∈ messages, m.state ≠ .deleted) :
    storedBytes messages = (messages.map (·.bodyBytes)).sum := by
  have hall : messages.filter (fun m => m.state ≠ .deleted) = messages :=
    List.filter_eq_self.mpr fun m hm => decide_eq_true (h m hm)
  rw [storedBytes, hall]

/-- Less counts toward a quota as time passes. -/
theorem quotaSizes_antitone {now : Int} (hle : now ≤ t) (messages : List StoredMessage)
    (recipient : String) :
    (quotaSizes t messages recipient).Sublist (quotaSizes now messages recipient) := by
  refine List.Sublist.map _ (monotone_filter_right _ fun m hm => ?_)
  simp only [countsTowardQuota, Bool.and_eq_true, decide_eq_true_eq] at hm ⊢
  exact ⟨hm.1, hm.2.1, by omega⟩

section

variable (h : WithinLimits t messages)

include h

theorem WithinLimits.evolve
    (he : Evolves (MessageStep env) messages messages') : WithinLimits t messages' := by
  have hsizes : ∀ recipient, (quotaSizes t messages' recipient).Sublist
      (quotaSizes t messages recipient) := by
    intro recipient
    refine he.filter_map_sublist _ _ (fun m m' hstep hm' => ?_) fun m m' hstep => hstep.bodyBytes
    rw [Bool.and_eq_true, decide_eq_true_eq] at hm' ⊢
    exact ⟨hstep.same.2.1 ▸ hm'.1, hstep.counts hm'.2⟩
  have hbodies := he.keys_sublist (·.bodyBytes) fun m m' hstep => hstep.bodyBytes
  refine ⟨fun recipient => ?_, fun recipient => ?_, ?_, fun m' hm' => ?_⟩
  · exact (hsizes recipient).length_le.trans (h.count recipient)
  · exact ((hsizes recipient).sum_le_sum fun _ _ => Nat.zero_le _).trans (h.bytes recipient)
  · exact (hbodies.sum_le_sum fun _ _ => Nat.zero_le _).trans h.total
  · obtain ⟨m, hm, hstep⟩ := he.mem hm'
    exact hstep.not_deleted (h.present m hm)

theorem WithinLimits.add (hle : env.now ≤ t) {m : StoredMessage}
    (hnew : NewMessage env messages m) : WithinLimits t (messages ++ [m]) := by
  have hroom := hnew.room
  have htotal := hroom.total
  rw [storedBytes_eq h.present] at htotal
  have hsizes : ∀ recipient, quotaSizes t (messages ++ [m]) recipient =
      quotaSizes t messages recipient ++
        if m.recipientSessionId = recipient ∧ countsTowardQuota t m then [m.bodyBytes] else [] := by
    intro recipient
    rw [quotaSizes, filter_append, map_append]
    congr 1
    split_ifs with hcond
    · rw [filter_cons_of_pos (by simpa using hcond)]
      rfl
    · rw [filter_cons_of_neg (by simpa using hcond)]
      rfl
  refine ⟨fun recipient => ?_, fun recipient => ?_, ?_, fun m' hm' => ?_⟩
  · rw [hsizes]
    split_ifs with hcond
    · have hlen := (quotaSizes_antitone hle messages m.recipientSessionId).length_le
      have hcount := hroom.count
      rw [length_append, ← hcond.1, length_singleton]
      omega
    · rw [append_nil]
      exact h.count recipient
  · rw [hsizes]
    split_ifs with hcond
    · have hsum := (quotaSizes_antitone hle messages m.recipientSessionId).sum_le_sum
        fun _ _ => Nat.zero_le _
      have hbytes := hroom.bytes
      rw [sum_append, ← hcond.1, sum_singleton]
      omega
    · rw [append_nil]
      exact h.bytes recipient
  · rw [map_append, sum_append, map_singleton, sum_singleton]
    exact htotal
  · rcases List.mem_append.mp hm' with hm' | hm'
    · exact h.present m' hm'
    · rw [List.mem_singleton.mp hm', hnew.unread]
      decide

theorem WithinLimits.posts (hp : Posts env messages messages') :
    WithinLimits t messages' := by
  induction hp with
  | refl => exact h
  | tail _ he ih => exact ih.evolve he

theorem WithinLimits.sectionPosts (hle : env.now ≤ t)
    (hs : SectionPosts env messages messages') : WithinLimits t messages' := by
  obtain ⟨before, after, hp, hadd, hp'⟩ := hs
  have hbefore := h.posts hp
  rcases hadd with rfl | ⟨message, hnew, rfl⟩
  · exact hbefore.posts hp'
  · exact (hbefore.add hle hnew).posts hp'

end

/-! ## Runs -/

theorem withinLimits_of_reach {s : State} (h : (systemUntil codec t).Reach s) :
    WithinLimits t s.registry.messages := by
  have hboth := Lts.Reach.invariant (S := systemUntil codec t)
    (I := fun s => Sound s ∧ WithinLimits t s.registry.messages) ?_ ?_ h
  · exact hboth.2
  · rintro s rfl
    refine ⟨sound_of_reach (Lts.Reach.init (S := system codec) rfl), ?_⟩
    exact ⟨fun _ => Nat.zero_le _, fun _ => Nat.zero_le _, Nat.zero_le _, fun _ hm => nomatch hm⟩
  · rintro l s s' ⟨hs, hw⟩ ⟨hle, hst⟩
    refine ⟨hs.step hst, ?_⟩
    obtain ⟨-, rfl⟩ := hst
    exact hw.sectionPosts hle (exec_moves hs.work l.2).posts

/-- After every section of a run with a nondecreasing clock, the messages that count toward the
quota of a session are within it, and the bodies within that of the registry. -/
theorem mailbox_capacity {s t : State} {ls : List (Env × Section)} {l : Env × Section}
    (hs : (system codec).init s) (hr : (system codec).Run (ls ++ [l]) s t)
    (hclock : ((ls ++ [l]).map (·.1.now)).Pairwise (· ≤ ·)) (recipient : String) :
    (liveFor t.registry recipient l.1.now).length ≤ maxSessionMessages ∧
      ((liveFor t.registry recipient l.1.now).map (·.bodyBytes)).sum ≤ maxSessionBytes ∧
      registryMessageBytes t.registry ≤ maxRegistryBytes := by
  have hle : ∀ l' ∈ ls ++ [l], l'.1.now ≤ l.1.now := by
    rw [List.map_append, List.pairwise_append] at hclock
    intro l' hl'
    rcases List.mem_append.mp hl' with hl' | hl'
    · exact hclock.2.2 _ (List.mem_map_of_mem hl') _ (by simp)
    · rw [List.mem_singleton.mp hl']
  have hreach : (systemUntil codec l.1.now).Reach t :=
    ⟨s, ls ++ [l], hs, hr.restrict fun l' hl' _ => hle l' hl'⟩
  have hw := withinLimits_of_reach hreach
  have hcount := hw.count recipient
  rw [quotaSizes, List.length_map] at hcount
  refine ⟨hcount, hw.bytes recipient, ?_⟩
  exact (storedBytes_eq hw.present).trans_le hw.total

theorem mailbox_capacity_sample :
    let l := (sampleEnv 1003 "id-4", Section.send (sampleSend 2))
    let t := execAll sampleCodec (mailRun ++ [l]) ⟨Registry.empty, []⟩
    (liveFor t.registry "beta" 1003).length = 2 ∧
      (liveFor t.registry "beta" 1003).length ≤ maxSessionMessages ∧
      ((liveFor t.registry "beta" 1003).map (·.bodyBytes)).sum ≤ maxSessionBytes ∧
      registryMessageBytes t.registry ≤ maxRegistryBytes := by
  intro l t
  refine ⟨by decide +kernel, ?_⟩
  exact @mailbox_capacity sampleCodec _ t mailRun l rfl
    (run_execAll (by decide +kernel) fun _ _ => List.not_mem_nil) (by decide +kernel) "beta"

end NilsCli.Coordination
