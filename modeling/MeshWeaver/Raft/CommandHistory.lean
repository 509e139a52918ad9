import MeshWeaver.Raft.StateMachineFacts

/-!
# The commands a state machine has applied

`applyAll` applies a list of entries. A batch applies further commands, which may be batches again: `historyAll` lists
the single commands in the order in which they are applied. The list leads from the first machine to the last, and
between two commands nothing changes but the count of calls (`linked_historyAll`).
-/

namespace MeshWeaver

namespace ReplicatedStateMachine

/-- The entries in order. One that raises does not keep the others from being applied. -/
def applyAll (clock : Clock) : List LogEntry → ReplicatedStateMachine →
    ReplicatedStateMachine × List (Except PyError CommandResult)
  | [], sm => (sm, [])
  | entry :: entries, sm =>
    let (sm₁, out) := applyCommand clock entry sm
    let (sm₂, outs) := applyAll clock entries sm₁
    (sm₂, out :: outs)

/-- A single command that has been applied. -/
structure Applied where
  entry : LogEntry
  now : Rat
  before : ReplicatedStateMachine
  after : ReplicatedStateMachine
  result : Except PyError CommandResult

def record (clock : Clock) (entry : LogEntry) (sm : ReplicatedStateMachine) : Applied :=
  { entry
    now := orNow entry.timestamp (clock sm.commandsApplied)
    before := sm
    after := (applyWithin 0 clock entry sm).1
    result := (applyWithin 0 clock entry sm).2 }

def historyOps (apply : LogEntry → ReplicatedStateMachine → Outcome)
    (history : LogEntry → ReplicatedStateMachine → List Applied) (clock : Clock) :
    List Value → ReplicatedStateMachine → List Applied
  | [], _ => []
  | op :: ops, sm =>
    match subEntry (clock sm.commandsApplied) op with
    | .error _ => []
    | .ok sub =>
      history sub sm ++
        match apply sub sm with
        | (_, .error _) => []
        | (sm', .ok _) => historyOps apply history clock ops sm'

def historyWithin : Nat → Clock → LogEntry → ReplicatedStateMachine → List Applied
  | fuel, clock, entry, sm =>
    if entry.commandType = .batch then
      match fuel with
      | 0 => []
      | fuel + 1 =>
        match entry.operations with
        | .error _ => []
        | .ok ops =>
          historyOps (applyWithin fuel clock) (historyWithin fuel clock) clock ops sm.counted
    else [record clock entry sm]

def history (clock : Clock) (entry : LogEntry) (sm : ReplicatedStateMachine) : List Applied :=
  historyWithin (entry.extraData.depth + 1) clock entry sm

def historyAll (clock : Clock) : List LogEntry → ReplicatedStateMachine → List Applied
  | [], _ => []
  | entry :: entries, sm =>
    history clock entry sm ++ historyAll clock entries (applyCommand clock entry sm).1

/-- The same machine, but for the count of calls. -/
def SameBut (sm sm' : ReplicatedStateMachine) : Prop :=
  sm' = { sm with commandsApplied := sm'.commandsApplied }

theorem SameBut.trans {sm₁ sm₂ sm₃ : ReplicatedStateMachine} (h : SameBut sm₁ sm₂)
    (h' : SameBut sm₂ sm₃) : SameBut sm₁ sm₃ := by
  rw [SameBut, h', h]

def Applied.Leaf (a : Applied) : Prop :=
  a.entry.commandType ≠ .batch ∧ ∃ clock, a = record clock a.entry a.before

namespace Applied.Leaf

variable {a : Applied}

theorem outcome (h : a.Leaf) :
    ∃ clock, a.now = orNow a.entry.timestamp (clock a.before.commandsApplied) ∧
      a.after = (applyWithin 0 clock a.entry a.before).1 ∧
      a.result = (applyWithin 0 clock a.entry a.before).2 := by
  obtain ⟨-, clock, ha⟩ := h
  refine ⟨clock, ?_, ?_, ?_⟩ <;> rw [ha] <;> rfl

theorem writes (h : a.Leaf) : Writes a.entry a.before a.after := by
  obtain ⟨clock, -, hafter, -⟩ := h.outcome
  rw [hafter]
  exact applyWithin_zero_writes _ _ _

end Applied.Leaf

/-- The commands `as`, applied one after another, lead from `sm` to `sm'`. -/
inductive Linked : ReplicatedStateMachine → List Applied → ReplicatedStateMachine → Prop
  | nil {sm sm'} (same : SameBut sm sm') : Linked sm [] sm'
  | cons {sm sm'} {a : Applied} {as} (same : SameBut sm a.before) (leaf : a.Leaf)
      (rest : Linked a.after as sm') : Linked sm (a :: as) sm'

namespace Linked

variable {sm sm₁ sm₂ sm' : ReplicatedStateMachine} {as bs : List Applied}

theorem of_sameBut (h : SameBut sm sm₁) (hlink : Linked sm₁ as sm') : Linked sm as sm' := by
  cases hlink with
  | nil same => exact .nil (h.trans same)
  | cons same leaf rest => exact .cons (h.trans same) leaf rest

theorem append (h : Linked sm as sm₁) (h' : Linked sm₁ bs sm') : Linked sm (as ++ bs) sm' := by
  induction h with
  | nil same => exact of_sameBut same h'
  | cons same leaf _ ih => exact .cons same leaf (ih h')

theorem of_append (h : Linked sm (as ++ bs) sm') : ∃ sm₁, Linked sm as sm₁ ∧ Linked sm₁ bs sm' := by
  induction as generalizing sm with
  | nil => exact ⟨sm, .nil rfl, h⟩
  | cons a as ih =>
    cases h with
    | cons same leaf rest =>
      obtain ⟨sm₁, h₁, h₂⟩ := ih rest
      exact ⟨sm₁, .cons same leaf h₁, h₂⟩

/-- **The invariant rule**: what every single command preserves, and what does not depend on the
count of calls, every history preserves. -/
theorem invariant {I : ReplicatedStateMachine → Prop} (hsame : ∀ a b, SameBut a b → I a → I b)
    (hleaf : ∀ a : Applied, a.Leaf → I a.before → I a.after) (h : Linked sm as sm') (hsm : I sm) : I sm' := by
  induction h with
  | nil same => exact hsame _ _ same hsm
  | cons same leaf _ ih => exact ih (hleaf _ leaf (hsame _ _ same hsm))

end Linked

theorem linked_historyOps {apply : LogEntry → ReplicatedStateMachine → Outcome}
    {history : LogEntry → ReplicatedStateMachine → List Applied}
    (h : ∀ sub sm, Linked sm (history sub sm) (apply sub sm).1) (clock : Clock) (ops : List Value)
    (results : List CommandResult) (sm : ReplicatedStateMachine) :
    Linked sm (historyOps apply history clock ops sm) (applyOps apply clock ops results sm).1 := by
  induction ops generalizing results sm with
  | nil => exact .nil rfl
  | cons op ops ih =>
    rw [applyOps_cons, historyOps]
    cases subEntry (clock sm.commandsApplied) op with
    | error e =>
      dsimp only
      split <;> exact .nil rfl
    | ok sub =>
      have hsub := h sub sm
      dsimp only
      rcases happly : apply sub sm with ⟨sm', out⟩
      rw [happly] at hsub
      cases out with
      | error e =>
        rwa [List.append_nil]
      | ok res => exact hsub.append (ih _ sm')

theorem linked_historyWithin (fuel : Nat) (clock : Clock) (entry : LogEntry) (sm : ReplicatedStateMachine) :
    Linked sm (historyWithin fuel clock entry sm) (applyWithin fuel clock entry sm).1 := by
  induction fuel generalizing entry sm with
  | zero =>
    rw [historyWithin]
    split_ifs with hb
    · rw [applyWithin]
      simp only [hb]
      exact .nil rfl
    · exact .cons rfl ⟨hb, clock, rfl⟩ (.nil rfl)
  | succ fuel ih =>
    rw [historyWithin]
    split_ifs with hb
    · rw [applyWithin_batch hb]
      cases entry.operations with
      | error e => exact .nil rfl
      | ok ops =>
        apply Linked.of_sameBut (show SameBut sm sm.counted from rfl)
        exact linked_historyOps (ih · ·) clock ops [] sm.counted
    · rw [applyWithin_of_ne_batch hb]
      exact .cons rfl ⟨hb, clock, rfl⟩ (.nil rfl)

theorem linked_historyAll (clock : Clock) (entries : List LogEntry) (sm : ReplicatedStateMachine) :
    Linked sm (historyAll clock entries sm) (applyAll clock entries sm).1 := by
  induction entries generalizing sm with
  | nil => exact .nil rfl
  | cons entry entries ih =>
    exact (linked_historyWithin _ clock entry sm).append (ih _)

end ReplicatedStateMachine

end MeshWeaver
