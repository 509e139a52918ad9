import MeshWeaver.Raft.EngineFacts

/-!
# The state machine is a replay of the log

`Replayed`: the calls of `apply_command` were made for the first `last_applied` entries of the log, in
order, and the state machine is what they lead to. Committing keeps this as long as no call raises
(`Replayed.commitTo`), and so does a change of the log beyond `last_applied` (`Replayed.of_log`).
-/

namespace MeshWeaver

namespace RaftReplicationEngine

variable {eng : Engine} {clock : Clock}

def replay (calls : List ApplyCall) (sm : ReplicatedStateMachine) : ReplicatedStateMachine :=
  calls.foldl (fun sm call => (sm.applyCommand call.clock call.entry).1) sm

theorem replay_append (calls calls' : List ApplyCall) (sm : ReplicatedStateMachine) :
    replay (calls ++ calls') sm = replay calls' (replay calls sm) := List.foldl_append

def NoRaise (eng : Engine) : Prop := ∀ call ∈ eng.applyCalls, ∃ v, call.outcome = .ok v

instance (eng : Engine) : Decidable (NoRaise eng) :=
  decidable_of_iff (eng.applyCalls.all fun call => call.outcome.isOk) <| by
    rw [List.all_eq_true]
    refine forall₂_congr fun call _ => ?_
    cases call.outcome <;> simp [Except.isOk, Except.toBool]

structure Replayed (eng : Engine) : Prop where
  nonneg : 0 ≤ eng.log.lastApplied
  le_commit : eng.log.lastApplied ≤ eng.log.commitIndex
  calls : eng.applyCalls.map ApplyCall.entry = eng.log.entries.take eng.log.lastApplied.toNat
  machine : eng.stateMachine = replay eng.applyCalls .empty

theorem Replayed.init (nodeId : String) : Replayed (init nodeId) := ⟨le_rfl, le_rfl, rfl, rfl⟩

theorem Replayed.of_log {eng' : Engine} (h : Replayed eng)
    (hcalls : eng'.applyCalls = eng.applyCalls) (hsm : eng'.stateMachine = eng.stateMachine)
    (hlast : eng'.log.lastApplied = eng.log.lastApplied) (hcommit : eng.log.lastApplied ≤ eng'.log.commitIndex)
    (hentries : eng'.log.entries.take eng.log.lastApplied.toNat =
      eng.log.entries.take eng.log.lastApplied.toNat) : Replayed eng' := by
  refine ⟨by rw [hlast]; exact h.nonneg, by rw [hlast]; exact hcommit, ?_, ?_⟩
  · rw [hcalls, hlast, hentries]
    exact h.calls
  · rw [hcalls, hsm]
    exact h.machine

/-! ### Applying -/

theorem Replayed.applyOne (h : Replayed eng) (hun : eng.log.Uncompacted)
    (hlt : eng.log.lastApplied < eng.log.commitIndex) {entry : LogEntry}
    (hentry : eng.log.entries[eng.log.lastApplied.toNat]? = some entry) {res : CommandResult}
    (hok : (applyOne clock entry eng).2 = .ok res) :
    Replayed (applyOne clock entry eng).1 ∧
      (applyOne clock entry eng).1.log.lastApplied = eng.log.lastApplied + 1 := by
  obtain ⟨sm, out, happ, hsm, hout, hcalls, -, -, hlog⟩ := applyOne_eq clock entry eng
  rw [hout] at hok
  subst hok
  have hidx : entry.index = eng.log.lastApplied + 1 := by
    have := hun.numbered _ entry hentry
    have := h.nonneg
    omega
  have hmark : eng.log.markApplied entry.index =
      { eng.log with lastApplied := eng.log.lastApplied + 1 } := by
    rw [RaftLog.markApplied, hidx, if_pos (by omega), min_eq_left (by omega)]
  rw [hmark] at hlog
  have hnonneg := h.nonneg
  refine ⟨⟨?_, ?_, ?_, ?_⟩, by rw [hlog]⟩
  · rw [hlog]; dsimp only; omega
  · rw [hlog]; dsimp only; omega
  · rw [hcalls, hlog, List.map_append, h.calls]
    rw [show (eng.log.lastApplied + 1).toNat = eng.log.lastApplied.toNat + 1 by omega,
      List.take_add_one, hentry]
    rfl
  · rw [hcalls, replay_append, ← h.machine, hsm]
    simp [replay, happ]

/-- **The loop replays the committed entries** unless a call raises. -/
theorem Replayed.applyLoop (es : List LogEntry) :
    ∀ (results : List (Int × CommandResult)) (eng : Engine), Replayed eng → eng.log.Uncompacted →
      es = (eng.log.entries.take eng.log.commitIndex.toNat).drop eng.log.lastApplied.toNat →
      NoRaise (applyLoop clock es results eng).1 → Replayed (applyLoop clock es results eng).1 := by
  induction es with
  | nil => intro results eng h _ _ _; exact h
  | cons entry rest ih =>
    intro results eng h hun hes hno
    have hnext := congrArg (·[0]?) hes
    simp only [List.getElem?_cons_zero, List.getElem?_drop, List.getElem?_take, add_zero] at hnext
    split_ifs at hnext with hlt
    obtain ⟨sm, out, -, -, hout, hcall, -⟩ := applyOne_eq clock entry eng
    have hkept := applyOne_kept clock entry eng
    rw [RaftReplicationEngine.applyLoop] at hno ⊢
    cases hone : RaftReplicationEngine.applyOne clock entry eng with
    | mk eng₁ res =>
      rw [hone] at hno hout hcall hkept
      subst hout
      cases res with
      | error e =>
        -- the call that raised is on record
        obtain ⟨v, hv⟩ := hno ⟨entry, clock, .error e⟩ (by rw [hcall]; simp)
        cases hv
      | ok v =>
        obtain ⟨h₁, hlast⟩ := h.applyOne hun (by have := h.nonneg; omega) hnext.symm
          (by rw [hone])
        rw [hone] at h₁ hlast
        refine ih _ eng₁ h₁ ⟨hkept.snapshotLastIndex.trans hun.noSnapshot, ?_⟩ ?_ hno
        · rw [hkept.entries]
          exact hun.numbered
        · have hnonneg := h.nonneg
          rw [hkept.entries, hkept.commitIndex, hlast,
            show (eng.log.lastApplied + 1).toNat = eng.log.lastApplied.toNat + 1 by omega,
            ← List.drop_drop, ← hes, List.drop_one, List.tail_cons]

theorem Replayed.commitTo (h : Replayed eng) (hun : eng.log.Uncompacted) (i : Int)
    (hno : NoRaise (commitTo clock i eng).1) : Replayed (commitTo clock i eng).1 := by
  have hadv := advanceCommitIndex_eq hun i
  have hle := h.le_commit
  have hun' : (eng.log.advanceCommitIndex i).Uncompacted := by
    rw [hadv]; exact ⟨hun.noSnapshot, hun.numbered⟩
  have h' : Replayed { eng with log := eng.log.advanceCommitIndex i } := by
    refine h.of_log rfl rfl ?_ ?_ ?_ <;> dsimp only <;> rw [hadv]
    dsimp only
    omega
  have hunapplied := RaftLog.getUnappliedEntries_eq
    (by rw [hun'.noSnapshot]; exact h'.nonneg) h'.le_commit
  rw [hun'.noSnapshot, sub_zero, sub_zero] at hunapplied
  exact Replayed.applyLoop _ [] _ h' hun' hunapplied hno

theorem NoRaise.of_append {eng₁ : Engine} {calls : List ApplyCall}
    (h : NoRaise eng) (heq : eng.applyCalls = eng₁.applyCalls ++ calls) : NoRaise eng₁ :=
  fun call hcall => h call (by rw [heq]; exact List.mem_append_left _ hcall)

theorem Replayed.commitsTo {eng₁ : Engine} {n : Int}
    (h : NoRaise eng₁ → Replayed eng₁) (hun : eng₁.log.Uncompacted) (hto : CommitsTo eng₁ n eng)
    (hno : NoRaise eng) : Replayed eng := by
  obtain ⟨clock, rfl⟩ := hto.result
  obtain ⟨calls, heq, -⟩ := hto.calls
  exact (h (hno.of_append heq)).commitTo hun n hno

theorem Replayed.merged (h : Replayed eng) {p : Nat} {new : List LogEntry}
    (hno : ¬ Lib.Conflicts LogEntry.term (eng.log.entries.drop p) new)
    (hgrow : eng.log.entries <+: (eng.log.merged p new).entries)
    (hlen : eng.log.commitIndex ≤ eng.log.entries.length) : Replayed { eng with log := eng.log.merged p new } := by
  have hle := h.le_commit
  have hcommit : (eng.log.merged p new).commitIndex = eng.log.commitIndex := by
    show eng.log.mergedCommit p new = _
    rw [RaftLog.mergedCommit, if_neg hno]
  refine h.of_log rfl rfl rfl (by rw [hcommit]; exact hle) ?_
  have htake := congrArg (List.take eng.log.lastApplied.toNat) (List.prefix_iff_eq_take.mp hgrow)
  rw [List.take_take, min_eq_left (by omega)] at htake
  exact htake.symm

end RaftReplicationEngine

end MeshWeaver
