import MeshWeaver.Sync.Barrier

/-!
# Rendezvous

The parties are those of the calls that wait as long as nobody enters between a timeout or a cancellation
and the next reset, or between a timer and its handler: then a release finds enough participants inside, and
all of their calls return `True`.
-/

namespace MeshWeaver

open Lib DistributedBarrier

namespace EnterCall

variable {call : EnterCall}

@[simp] theorem setResult_participantId (value : Bool) :
    (call.setResult value).participantId = call.participantId := by
  unfold setResult
  split_ifs <;> rfl

theorem setResult_future_ne (value : Bool) : (call.setResult value).future ≠ .pending := by
  unfold setResult
  split_ifs with h
  · exact nofun
  · exact h

/-- A timer has cancelled the future, and `True` is the result of the future. -/
structure Sound (call : EnterCall) : Prop where
  fired : call.timedOut = true → call.future ≠ .pending
  truthful : call.returned = some true → call.future = .result true

theorem Sound.setResult (h : call.Sound) (value : Bool) : (call.setResult value).Sound := by
  unfold EnterCall.setResult
  split_ifs with hpending
  · refine ⟨fun hfired => absurd hpending (h.fired hfired), fun htrue => ?_⟩
    rw [h.truthful htrue] at hpending
    cases hpending
  · exact h

theorem Sound.expire (h : call.Sound) : call.expire.Sound := by
  unfold EnterCall.expire
  split_ifs with hpending
  · refine ⟨fun _ => nofun, fun htrue => ?_⟩
    rw [h.truthful htrue] at hpending
    cases hpending
  · exact ⟨fun _ => hpending, h.truthful⟩

end EnterCall

namespace DistributedBarrier

variable {b : DistributedBarrier} {late value : Bool} {start i : Nat} {call : EnterCall} {waiters : List Nat}
  {participantId : String} {event : BarrierEvent} {events : List BarrierEvent}

/-! ### The calls -/

theorem getElem?_settle (waiters : List Nat) (value : Bool) (i : Nat) :
    (b.settle waiters value)[i]? =
      b.calls[i]?.map fun call => if i ∈ waiters then call.setResult value else call := by
  rw [settle, List.getElem?_mapIdx]

@[simp] theorem length_settle (waiters : List Nat) (value : Bool) :
    (b.settle waiters value).length = b.calls.length := by
  rw [settle, List.length_mapIdx]

theorem exists_of_mem_settle (h : call ∈ b.settle waiters value) : ∃ i old, b.calls[i]? = some old ∧
      call = if i ∈ waiters then old.setResult value else old := by
  obtain ⟨i, hi⟩ := List.mem_iff_getElem?.mp h
  rw [getElem?_settle, Option.map_eq_some_iff] at hi
  obtain ⟨old, hold, rfl⟩ := hi
  exact ⟨i, old, hold, rfl⟩

theorem sound_settle (h : ∀ call ∈ b.calls, call.Sound) (waiters : List Nat) (value : Bool) :
    ∀ call ∈ b.settle waiters value, call.Sound := by
  intro call hcall
  obtain ⟨i, old, hold, rfl⟩ := exists_of_mem_settle hcall
  have hsound := h old (List.mem_iff_getElem?.mpr ⟨i, hold⟩)
  split_ifs
  · exact hsound.setResult value
  · exact hsound

/-! ### The invariant -/

/-- What the calls and the rest of the barrier have to do with each other; the round began with the call
`start`. -/
structure Tidy (b : DistributedBarrier) (start : Nat) : Prop where
  start_le : start ≤ b.calls.length
  sound : ∀ call ∈ b.calls, call.Sound
  undone : ∀ i ∈ b.waiters, ∃ call, b.calls[i]? = some call ∧ call.returned = none ∧
    ∀ value, call.future ≠ .result value
  pending : ∀ i call, b.calls[i]? = some call → call.returned = none → call.future = .pending →
    i ∈ b.waiters
  released : b.state = .released → b.waiters = []
  parties : b.state = .waiting → b.parties = (b.waiters.filterMap b.participant?).toFinset
  recent : b.state = .waiting → (∀ i ∈ b.waiters, b.calls[i]?.map EnterCall.future = some .pending) →
    ∀ i ∈ b.waiters, start ≤ i
  inside : ∀ i, start ≤ i → i < b.calls.length → b.returned? i = none → i ∈ b.waiters

theorem Tidy.of_empty (hsound : ∀ call ∈ b.calls, call.Sound)
    (hdone : ∀ call ∈ b.calls, call.returned = none → call.future ≠ .pending) (hwaiters : b.waiters = [])
    (hparties : b.state = .waiting → b.parties = ∅) : b.Tidy b.calls.length := by
  refine ⟨le_rfl, hsound, ?_, ?_, fun _ => hwaiters, ?_, ?_, fun i hle hlt => absurd hle (not_le.mpr hlt)⟩
  · intro i hi
    rw [hwaiters] at hi
    cases hi
  · intro i call hcall hreturned hpending
    exact absurd hpending (hdone call (List.mem_iff_getElem?.mpr ⟨i, hcall⟩) hreturned)
  · intro hstate
    rw [hparties hstate, hwaiters]
    rfl
  · intro _ _ i hi
    rw [hwaiters] at hi
    cases hi

theorem Tidy.done_settle (h : b.Tidy start) (hall : ∀ i ∈ b.waiters, i ∈ waiters) :
    ∀ call ∈ b.settle waiters value, call.returned = none → call.future ≠ .pending := by
  intro call hcall hreturned hpending
  obtain ⟨i, old, hold, rfl⟩ := exists_of_mem_settle hcall
  by_cases hi : i ∈ waiters
  · rw [if_pos hi] at hpending
    exact EnterCall.setResult_future_ne value hpending
  · rw [if_neg hi] at hpending hreturned
    exact hi (hall i (h.pending i old hold hreturned hpending))

/-- Nobody enters between a timeout or a cancellation and the next reset, or between the timer of a call and
its handler, and no timer fires on a call that is already due to return. -/
def Orderly (late : Bool) (b : DistributedBarrier) : BarrierEvent → Prop
  | .enter _ => (b.state = .waiting ∨ b.state = .released) ∧
      ∀ i ∈ b.waiters, b.calls[i]?.map EnterCall.future = some .pending
  | .expire i => ∀ call ∈ b.calls[i]?, call.fires late = true → call.future = .pending
  | _ => True

theorem Tidy.reset (h : b.Tidy start) : b.reset.Tidy b.reset.calls.length :=
  .of_empty (sound_settle h.sound _ _) (h.done_settle fun _ hi => hi) rfl fun _ => rfl

theorem Tidy.cancel (h : b.Tidy start) : b.cancel.Tidy b.cancel.calls.length :=
  .of_empty (sound_settle h.sound _ _) (h.done_settle fun _ hi => hi) rfl nofun

section

variable (h : b.Tidy start)
include h

theorem Tidy.enter_release (hfull : (b.arrivals participantId).card ≥ b.threshold) :
    (b.enter participantId).Tidy (b.enter participantId).calls.length := by
  rw [enter, if_pos hfull]
  refine .of_empty ?_ ?_ rfl nofun
  · rw [List.forall_mem_append, List.forall_mem_singleton]
    exact ⟨sound_settle h.sound _ _, nofun, fun _ => rfl⟩
  · rw [List.forall_mem_append, List.forall_mem_singleton]
    exact ⟨h.done_settle fun _ hi => hi, nofun⟩

theorem Tidy.arrivals_eq (hstate : b.state = .waiting ∨ b.state = .released) (participantId : String) :
    b.arrivals participantId = insert participantId (b.waiters.filterMap b.participant?).toFinset := by
  unfold arrivals
  rcases hstate with hstate | hstate
  · rw [if_neg (by rw [hstate]; exact nofun), h.parties hstate]
  · rw [if_pos hstate, h.released hstate]
    rfl

theorem Tidy.lt_of_mem_waiters : ∀ i ∈ b.waiters, i < b.calls.length := by
  intro i hi
  obtain ⟨call, hcall, -⟩ := h.undone i hi
  exact (List.getElem?_eq_some_iff.mp hcall).1

theorem Tidy.enter_wait (horderly : b.Orderly late (.enter participantId))
    (hfew : ¬ (b.arrivals participantId).card ≥ b.threshold) : (b.enter participantId).Tidy start := by
  obtain ⟨hstate, hpending⟩ := horderly
  have harrivals := h.arrivals_eq hstate participantId
  have hlt := h.lt_of_mem_waiters
  rw [enter, if_neg hfew]
  let new : EnterCall := ⟨participantId, .pending, false, none⟩
  have hold : ∀ i < b.calls.length, (b.calls ++ [new])[i]? = b.calls[i]? := fun i hi =>
    List.getElem?_append_left hi
  have hnew : (b.calls ++ [new])[b.calls.length]? = some new := List.getElem?_concat_length
  have hlength : (b.calls ++ [new]).length = b.calls.length + 1 := List.length_append
  refine ⟨?_, ?_, ?_, ?_, ?_, ?_, ?_, ?_⟩
  · exact h.start_le.trans (hlength ▸ Nat.le_succ _)
  · rw [List.forall_mem_append, List.forall_mem_singleton]
    exact ⟨h.sound, nofun, nofun⟩
  · intro i hi
    rcases List.mem_append.mp hi with hi | hi
    · obtain ⟨call, hcall, hundone⟩ := h.undone i hi
      exact ⟨call, (hold i (hlt i hi)).trans hcall, hundone⟩
    · rw [List.mem_singleton.mp hi]
      exact ⟨new, hnew, rfl, nofun⟩
  · intro i call hcall hreturned hfuture
    by_cases hi : i < b.calls.length
    · exact List.mem_append_left _ (h.pending i call ((hold i hi).symm.trans hcall) hreturned hfuture)
    · have hlt' := hlength ▸ (List.getElem?_eq_some_iff.mp hcall).1
      rw [show i = b.calls.length by omega]
      exact List.mem_append_right _ List.mem_cons_self
  · intro hreleased
    split_ifs at hreleased with hsame
    exact absurd hreleased hsame
  · intro _
    have hsame : b.waiters.filterMap (fun i => (b.calls ++ [new])[i]?.map EnterCall.participantId) =
        b.waiters.filterMap b.participant? :=
      List.filterMap_congr fun i hi => congrArg _ (hold i (hlt i hi))
    change b.arrivals participantId = ((b.waiters ++ [b.calls.length]).filterMap
      fun i => (b.calls ++ [new])[i]?.map EnterCall.participantId).toFinset
    rw [harrivals, List.filterMap_append, hsame, List.filterMap_cons, hnew]
    simp [new]
  · intro _ _ i hi
    rcases List.mem_append.mp hi with hi | hi
    · rcases hstate with hstate | hstate
      · exact h.recent hstate hpending i hi
      · rw [h.released hstate] at hi
        cases hi
    · rw [List.mem_singleton.mp hi]
      exact h.start_le
  · intro i hle hi hreturned
    by_cases hi' : i < b.calls.length
    · refine List.mem_append_left _ (h.inside i hle hi' ?_)
      rwa [returned?, ← hold i hi']
    · have hlt' := hlength ▸ hi
      rw [show i = b.calls.length by omega]
      exact List.mem_append_right _ List.mem_cons_self

end

theorem getElem?_modify_calls {f : EnterCall → EnterCall} {i j : Nat} :
    (b.calls.modify i f)[j]? = b.calls[j]?.map fun call => if i = j then f call else call := by
  rw [List.getElem?_modify]
  rfl

theorem Tidy.expire (h : b.Tidy start) (hcall : b.calls[i]? = some call)
    (hfires : call.fires late = true) (hpending : call.future = .pending) :
    (b.expire late i).Tidy (b.expire late i).calls.length := by
  have hreturned : call.returned = none := by
    simp only [EnterCall.fires, timerFires, Bool.and_eq_true, Option.isNone_iff_eq_none] at hfires
    exact hfires.1.1
  have hi : i ∈ b.waiters := h.pending i call hcall hreturned hpending
  have hget : ∀ j, (b.expire late i).calls[j]? = if j = i then some call.expire else b.calls[j]? := by
    intro j
    refine getElem?_modify_calls.trans ?_
    by_cases hji : j = i
    · rw [hji, hcall]
      simp [hfires]
    · rw [if_neg hji]
      simp [Ne.symm hji]
  have hparticipant : ∀ j, (b.expire late i).participant? j = b.participant? j := by
    intro j
    rw [participant?, participant?, hget]
    split_ifs with hji
    · rw [hji, hcall]
      rfl
    · rfl
  refine ⟨le_rfl, ?_, ?_, ?_, h.released, ?_, ?_, fun j hle hlt => absurd hle (not_le.mpr hlt)⟩
  · refine forall_mem_modify h.sound fun c hc => ?_
    have hsound := h.sound c (List.mem_iff_getElem?.mpr ⟨i, hc⟩)
    split_ifs
    · exact hsound.expire
    · exact hsound
  · intro j hj
    rw [hget]
    split_ifs with hji
    · refine ⟨_, rfl, hreturned, fun value => ?_⟩
      simp [EnterCall.expire, hpending]
    · exact h.undone j hj
  · intro j c hc hnone hfuture
    rw [hget] at hc
    split_ifs at hc with hji
    · rwa [hji]
    · exact h.pending j c hc hnone hfuture
  · intro hstate
    have hsame : (b.expire late i).participant? = b.participant? := funext hparticipant
    rw [hsame]
    exact h.parties hstate
  · -- a future that was cancelled is not pending
    intro _ hall
    have hfuture := hall i hi
    rw [hget, if_pos rfl] at hfuture
    simp [EnterCall.expire, hpending] at hfuture

theorem Tidy.finish_timeout (h : b.Tidy start) (i : Nat) :
    ((b.handleTimeout i).finish i false).Tidy ((b.handleTimeout i).finish i false).calls.length := by
  have hfalse : ∀ c : EnterCall, c.Sound → { c with returned := some false }.Sound := fun c hc =>
    ⟨hc.fired, nofun⟩
  by_cases hstate : b.state = .released
  · have hnone := h.released hstate
    have hhandle : b.handleTimeout i = b := by
      rw [handleTimeout, if_pos hstate, hnone, List.erase_nil, ← hnone]
    rw [hhandle]
    refine .of_empty ?_ ?_ hnone fun hwaiting => absurd (hstate.symm.trans hwaiting) nofun
    · exact forall_mem_modify h.sound fun c hc => hfalse c (h.sound c (List.mem_iff_getElem?.mpr ⟨i, hc⟩))
    · refine forall_mem_modify (fun c hc hreturned hpending => ?_) fun c _ => nofun
      obtain ⟨j, hj⟩ := List.mem_iff_getElem?.mp hc
      have hmem := h.pending j c hj hreturned hpending
      rw [hnone] at hmem
      cases hmem
  · have hhandle : b.handleTimeout i =
        { b with state := .timedOut, waiters := [], calls := b.settle (b.waiters.erase i) false } :=
      if_neg hstate
    rw [hhandle]
    refine .of_empty ?_ ?_ rfl nofun
    · have hsound := sound_settle h.sound (b.waiters.erase i) false
      exact forall_mem_modify hsound fun c hc => hfalse c (hsound c (List.mem_iff_getElem?.mpr ⟨i, hc⟩))
    · -- whoever is not told is the call that returns
      intro c hc hreturned hpending
      obtain ⟨j, hj⟩ := List.mem_iff_getElem?.mp hc
      rw [finish, List.getElem?_modify, getElem?_settle, Option.map_eq_map, Option.map_map,
        Option.map_eq_some_iff] at hj
      obtain ⟨old, hold, rfl⟩ := hj
      by_cases hji : i = j
      · simp [hji] at hreturned
      · have hmem := List.mem_erase_of_ne (l := b.waiters) (Ne.symm hji)
        simp only [Function.comp_apply, if_neg hji, hmem] at hreturned hpending
        split_ifs at hreturned hpending with hwaits
        · exact EnterCall.setResult_future_ne false hpending
        · exact hwaits (h.pending j old hold hreturned hpending)

theorem Tidy.finish_result (h : b.Tidy start)
    (hcall : b.calls[i]? = some call) (hfuture : call.future = .result value) : (b.finish i value).Tidy start := by
  have hwaits : i ∉ b.waiters := by
    intro hi
    obtain ⟨c, hc, -, hundone⟩ := h.undone i hi
    cases hcall.symm.trans hc
    exact hundone value hfuture
  have hget : ∀ j ≠ i, (b.finish i value).calls[j]? = b.calls[j]? := by
    intro j hji
    refine getElem?_modify_calls.trans ?_
    simp [Ne.symm hji]
  have hself : (b.finish i value).calls[i]? = some { call with returned := some value } := by
    refine getElem?_modify_calls.trans ?_
    simp [hcall]
  have hwaiter : ∀ j ∈ b.waiters, j ≠ i := fun j hj hji => hwaits (hji ▸ hj)
  have hlength : (b.finish i value).calls.length = b.calls.length := List.length_modify _ _ _
  refine ⟨hlength ▸ h.start_le, ?_, ?_, ?_, h.released, ?_, ?_, ?_⟩
  · refine forall_mem_modify h.sound fun c hc => ?_
    cases hcall.symm.trans hc
    refine ⟨(h.sound call (List.mem_iff_getElem?.mpr ⟨i, hcall⟩)).fired, fun htrue => ?_⟩
    rwa [← Option.some_inj.mp htrue]
  · intro j hj
    rw [hget j (hwaiter j hj)]
    exact h.undone j hj
  · intro j c hc hnone hpending
    by_cases hji : j = i
    · rw [hji, hself] at hc
      cases hc
      cases hnone
    · exact h.pending j c ((hget j hji).symm.trans hc) hnone hpending
  · intro hstate
    refine (h.parties hstate).trans ?_
    have hsame : b.waiters.filterMap b.participant? = b.waiters.filterMap (b.finish i value).participant? :=
      List.filterMap_congr fun j hj => by rw [participant?, participant?, hget j (hwaiter j hj)]
    rw [hsame]
    rfl
  · intro hstate hall
    refine h.recent hstate fun j hj => ?_
    rw [← hget j (hwaiter j hj)]
    exact hall j hj
  · intro j hle hlt hnone
    by_cases hji : j = i
    · rw [hji, returned?, hself] at hnone
      cases hnone
    · refine h.inside j hle (hlength ▸ hlt) ?_
      rwa [returned?, ← hget j hji]

theorem expire_cases (b : DistributedBarrier) (late : Bool) (i : Nat) :
    (b.ends late (.expire i) = false ∧ b.expire late i = b) ∨
      ∃ call, b.calls[i]? = some call ∧ call.fires late = true ∧ b.ends late (.expire i) = true := by
  by_cases hfires : ∃ call, b.calls[i]? = some call ∧ call.fires late = true
  · obtain ⟨call, hcall, hfires⟩ := hfires
    exact Or.inr ⟨call, hcall, hfires, by simp [ends, hcall, hfires]⟩
  · have hnot : ∀ call, b.calls[i]? = some call → call.fires late = false := fun call hcall =>
      Bool.eq_false_iff.mpr fun hyes => hfires ⟨call, hcall, hyes⟩
    refine Or.inl ⟨?_, ?_⟩
    · cases hcall : b.calls[i]? with
      | none => simp [ends, hcall]
      | some call => simp [ends, hcall, hnot call hcall]
    · have hcalls : b.calls.modify i (fun call => if call.fires late then call.expire else call) = b.calls := by
        refine List.ext_getElem? fun j => ?_
        rw [getElem?_modify_calls]
        by_cases hij : i = j
        · subst hij
          cases hcall : b.calls[i]? with
          | none => rfl
          | some call => simp [hnot call hcall]
        · simp [hij]
      rw [expire, hcalls]

theorem resume_cases (b : DistributedBarrier) (late : Bool) (i : Nat) :
    (b.ends late (.resume i) = false ∧ b.resume i = b) ∨
      (b.ends late (.resume i) = true ∧ b.resume i = (b.handleTimeout i).finish i false ∧
        ∃ call, b.calls[i]? = some call ∧ call.returned = none ∧ call.timedOut = true) ∨
      ∃ call value, b.ends late (.resume i) = false ∧ b.resume i = b.finish i value ∧
        b.calls[i]? = some call ∧ call.returned = none ∧ call.timedOut = false ∧ call.future = .result value := by
  have hends : b.ends late (.resume i) =
      b.calls[i]?.any fun call => call.returned.isNone && call.timedOut := rfl
  rw [hends]
  unfold resume
  cases hcall : b.calls[i]? with
  | none => exact Or.inl ⟨rfl, rfl⟩
  | some call =>
    rw [Option.any_some]
    dsimp only
    by_cases hreturned : call.returned = none
    · rw [hreturned]
      cases htimeout : call.timedOut with
      | true => exact Or.inr (Or.inl ⟨rfl, rfl, call, rfl, hreturned, htimeout⟩)
      | false =>
        cases hfuture : call.future with
        | result value => exact Or.inr (Or.inr ⟨call, value, rfl, rfl, rfl, hreturned, htimeout, hfuture⟩)
        | pending | cancelled => exact Or.inl ⟨rfl, rfl⟩
    · obtain ⟨value, hvalue⟩ := Option.ne_none_iff_exists'.mp hreturned
      rw [hvalue]
      exact Or.inl ⟨rfl, rfl⟩

/-- **Every event keeps the invariant**, and begins a round where it ends one. -/
theorem Tidy.step (h : b.Tidy start) (horderly : b.Orderly late event) :
    (b.step late event).Tidy (if b.ends late event then (b.step late event).calls.length else start) := by
  cases event with
  | enter participantId =>
    by_cases hfull : (b.arrivals participantId).card ≥ b.threshold
    · have hends : b.ends late (.enter participantId) = true := decide_eq_true hfull
      rw [if_pos hends]
      exact h.enter_release hfull
    · have hends : b.ends late (.enter participantId) = false := decide_eq_false hfull
      rw [hends]
      exact h.enter_wait horderly hfull
  | expire i =>
    rcases expire_cases b late i with ⟨hends, hsame⟩ | ⟨call, hcall, hfires, hends⟩
    · rwa [hends, DistributedBarrier.step, hsame]
    · rw [if_pos hends]
      exact h.expire hcall hfires (horderly call hcall hfires)
  | resume i =>
    rw [DistributedBarrier.step]
    rcases resume_cases b late i with ⟨hends, hsame⟩ | ⟨hends, hresume, -⟩ |
      ⟨call, value, hends, hresume, hcall, -, -, hfuture⟩
    · rwa [hends, hsame]
    · rw [if_pos hends, hresume]
      exact h.finish_timeout i
    · rw [hends, hresume]
      exact h.finish_result hcall hfuture
  | reset => exact h.reset
  | cancel => exact h.cancel

theorem roundStart_concat (late : Bool) (b : DistributedBarrier) (start : Nat) (events : List BarrierEvent)
    (event : BarrierEvent) : roundStart late b start (events ++ [event]) =
      if (b.after late events).ends late event then (b.after late (events ++ [event])).calls.length
      else roundStart late b start events := by
  induction events generalizing b start with
  | nil => rfl
  | cons first events ih => exact ih (b.step late first) _

theorem after_concat (b : DistributedBarrier) (late : Bool) (events : List BarrierEvent)
    (event : BarrierEvent) : b.after late (events ++ [event]) = (b.after late events).step late event :=
  run_append _ _ _ _

theorem Tidy.after (h : b.Tidy 0) (horderly : Along (fun b => b.step late) (Orderly late) b events) :
    (b.after late events).Tidy (roundStart late b 0 events) := by
  induction events using List.reverseRecOn with
  | nil => exact h
  | append_singleton events event ih =>
    rw [roundStart_concat, after_concat]
    exact (ih horderly.of_append_left).step horderly.last

theorem tidy_new {threshold : Int} (h : new threshold = .ok b) :
    b.Tidy 0 ∧ (b.threshold : Int) = threshold ∧ b.calls = [] := by
  unfold new at h
  split_ifs at h with hthreshold
  cases h
  refine ⟨.of_empty ?_ ?_ rfl fun _ => rfl, Int.toNat_of_nonneg (by omega), rfl⟩
  · exact fun _ hcall => absurd hcall List.not_mem_nil
  · exact fun _ hcall => absurd hcall List.not_mem_nil

/-! ### Releases -/

theorem enter_release_eq (hfull : (b.arrivals participantId).card ≥ b.threshold) :
    b.enter participantId =
      { b with
        parties := b.arrivals participantId
        state := .released
        generation := b.generation + 1
        waiters := []
        calls := b.settle b.waiters true ++ [⟨participantId, .result true, false, some true⟩] } :=
  if_pos hfull

theorem releases_enter_iff :
    b.releases (.enter participantId) = true ↔ (b.arrivals participantId).card ≥ b.threshold := by
  rw [releases, decide_eq_true_eq, returned?]
  constructor
  · intro h
    by_contra hfew
    rw [enter, if_neg hfew] at h
    simp at h
  · intro hfull
    rw [enter_release_eq hfull]
    rw [← length_settle b.waiters true, List.getElem?_concat_length]
    rfl

theorem Tidy.mem_waiters_iff (h : b.Tidy start) (horderly : b.Orderly late (.enter participantId)) (i : Nat) :
    i ∈ b.waiters ↔ i < b.calls.length ∧ start ≤ i ∧ b.returned? i = none := by
  obtain ⟨hstate, hpending⟩ := horderly
  constructor
  · intro hi
    obtain ⟨call, hcall, hreturned, -⟩ := h.undone i hi
    refine ⟨h.lt_of_mem_waiters i hi, ?_, ?_⟩
    · rcases hstate with hstate | hstate
      · exact h.recent hstate hpending i hi
      · rw [h.released hstate] at hi
        cases hi
    · rwa [returned?, hcall]
  · rintro ⟨hlt, hle, hreturned⟩
    exact h.inside i hle hlt hreturned

/-- The call was released: it has returned `True`, or is about to. -/
def Promised (b : DistributedBarrier) (i : Nat) : Prop :=
  ∃ call, b.calls[i]? = some call ∧ call.future = .result true ∧ call.timedOut = false ∧
    (call.returned = none ∨ call.returned = some true)

section promised
variable (h : b.Promised i)
include h

theorem Promised.settle (waiters : List Nat) (value : Bool) :
    (b.settle waiters value)[i]? = b.calls[i]? := by
  obtain ⟨call, hcall, hfuture, -⟩ := h
  have hdone : call.setResult value = call := if_neg (by rw [hfuture]; exact nofun)
  rw [getElem?_settle, hcall, Option.map_some, hdone, ite_self]

theorem Promised.congr {b' : DistributedBarrier} (hcalls : b'.calls[i]? = b.calls[i]?) : b'.Promised i := by
  obtain ⟨call, hcall, hpromised⟩ := h
  exact ⟨call, hcalls.trans hcall, hpromised⟩

theorem Promised.lt : i < b.calls.length := by
  obtain ⟨call, hcall, -⟩ := h
  exact (List.getElem?_eq_some_iff.mp hcall).1

theorem Promised.finish_other {j : Nat} (hne : j ≠ i) (value : Bool) :
    (b.finish j value).Promised i := by
  refine h.congr (getElem?_modify_calls.trans ?_)
  simp [hne]

theorem Promised.resume : (b.resume i).Promised i ∧ (b.resume i).returned? i = some true := by
  have hpromised := h
  obtain ⟨call, hcall, hfuture, htimeout, hreturned⟩ := h
  unfold DistributedBarrier.resume
  rw [hcall]
  dsimp only
  rcases hreturned with hreturned | hreturned
  · rw [hreturned, htimeout, hfuture]
    have hself : (b.finish i true).calls[i]? = some { call with returned := some true } := by
      refine getElem?_modify_calls.trans ?_
      simp [hcall]
    refine ⟨⟨_, hself, hfuture, htimeout, Or.inr rfl⟩, ?_⟩
    change (b.finish i true).returned? i = some true
    rw [returned?, hself]
    rfl
  · rw [hreturned]
    refine ⟨hpromised, ?_⟩
    change b.returned? i = some true
    rwa [returned?, hcall]

theorem Promised.handleTimeout (j : Nat) : (b.handleTimeout j).Promised i := by
  unfold DistributedBarrier.handleTimeout
  split_ifs
  · exact h.congr rfl
  · exact h.congr (h.settle _ _)

/-- **No event takes back a release.** -/
theorem Promised.step (horderly : b.Orderly late event) : (b.step late event).Promised i := by
  cases event with
  | enter participantId =>
    rw [DistributedBarrier.step, enter]
    split_ifs
    · refine h.congr ((List.getElem?_append_left ?_).trans (h.settle _ _))
      rw [length_settle]
      exact h.lt
    all_goals exact h.congr (List.getElem?_append_left h.lt)
  | expire j =>
    rcases expire_cases b late j with ⟨-, hsame⟩ | ⟨call, hcall, hfires, -⟩
    · rwa [DistributedBarrier.step, hsame]
    · -- the timer is that of a call that still waits
      have hpending := horderly call hcall hfires
      have hne : j ≠ i := by
        rintro rfl
        obtain ⟨call', hcall', hfuture, -⟩ := h
        cases hcall.symm.trans hcall'
        rw [hpending] at hfuture
        cases hfuture
      refine h.congr (getElem?_modify_calls.trans ?_)
      simp [hne]
  | resume j =>
    rw [DistributedBarrier.step]
    by_cases hji : j = i
    · rw [hji]
      exact h.resume.1
    · rcases resume_cases b late j with ⟨-, hsame⟩ | ⟨-, hresume, -⟩ | ⟨call, value, -, hresume, -⟩
      · rwa [hsame]
      · rw [hresume]
        exact (h.handleTimeout j).finish_other hji false
      · rw [hresume]
        exact h.finish_other hji value
  | reset | cancel => exact h.congr (h.settle _ _)

theorem Promised.after (horderly : Along (fun b => b.step late) (Orderly late) b events) :
    (b.after late events).Promised i :=
  horderly.invariant (I := fun b => b.Promised i) (fun _ _ hpromised hevent => hpromised.step hevent) h

end promised

/-! ### Results -/

/-- The future of the call has the result `True`. -/
def Freed (b : DistributedBarrier) (i : Nat) : Prop :=
  ∃ call, b.calls[i]? = some call ∧ call.future = .result true

theorem freed_of_settle
    (hcall : (b.settle waiters false)[i]? = some call) (hfuture : call.future = .result true) : b.Freed i := by
  rw [getElem?_settle, Option.map_eq_some_iff] at hcall
  obtain ⟨old, hold, rfl⟩ := hcall
  refine ⟨old, hold, ?_⟩
  unfold EnterCall.setResult at hfuture
  split_ifs at hfuture
  all_goals first | exact hfuture | cases hfuture

theorem freed_of_modify {f : EnterCall → EnterCall} {i j : Nat}
    (hf : ∀ call, (f call).future = .result true → call.future = .result true)
    (hcall : (b.calls.modify j f)[i]? = some call) (hfuture : call.future = .result true) : b.Freed i := by
  rw [getElem?_modify_calls, Option.map_eq_some_iff] at hcall
  obtain ⟨old, hold, rfl⟩ := hcall
  refine ⟨old, hold, ?_⟩
  split_ifs at hfuture
  · exact hf old hfuture
  · exact hfuture

theorem freed_of_handleTimeout {i j : Nat} (h : (b.handleTimeout j).Freed i) : b.Freed i := by
  obtain ⟨call, hcall, hfuture⟩ := h
  unfold handleTimeout at hcall
  split_ifs at hcall
  · exact ⟨call, hcall, hfuture⟩
  · exact freed_of_settle hcall hfuture

theorem freed_of_finish {i j : Nat} (h : (b.finish j value).Freed i) : b.Freed i := by
  obtain ⟨call, hcall, hfuture⟩ := h
  exact freed_of_modify (f := fun call => { call with returned := some value }) (fun _ hresult => hresult)
    hcall hfuture

theorem freed_cases (hfreed : (b.step late event).Freed i) :
    b.Freed i ∨ b.releases event = true ∧ (i ∈ b.waiters ∨ i = b.calls.length) := by
  cases event with
  | enter participantId =>
    by_cases hfull : (b.arrivals participantId).card ≥ b.threshold
    · have hreleases := releases_enter_iff.mpr hfull
      rw [DistributedBarrier.step, enter_release_eq hfull] at hfreed
      obtain ⟨call, hcall, hfuture⟩ := hfreed
      by_cases hi : i < b.calls.length
      · by_cases hwaits : i ∈ b.waiters
        · exact Or.inr ⟨hreleases, Or.inl hwaits⟩
        · rw [List.getElem?_append_left (by rwa [length_settle]), getElem?_settle] at hcall
          simp only [if_neg hwaits, Option.map_id'] at hcall
          exact Or.inl ⟨call, hcall, hfuture⟩
      · have hlt := (List.getElem?_eq_some_iff.mp hcall).1
        rw [List.length_append, length_settle, List.length_singleton] at hlt
        exact Or.inr ⟨hreleases, Or.inr (by omega)⟩
    · rw [DistributedBarrier.step, enter, if_neg hfull] at hfreed
      obtain ⟨call, hcall, hfuture⟩ := hfreed
      rw [List.getElem?_append, List.getElem?_singleton] at hcall
      split_ifs at hcall
      · exact Or.inl ⟨call, hcall, hfuture⟩
      · cases hcall
        cases hfuture
  | expire j =>
    obtain ⟨call, hcall, hfuture⟩ := hfreed
    refine Or.inl (freed_of_modify (fun old hresult => ?_) hcall hfuture)
    unfold EnterCall.expire at hresult
    split_ifs at hresult
    all_goals exact hresult
  | resume j =>
    rw [DistributedBarrier.step] at hfreed
    rcases resume_cases b late j with ⟨-, hsame⟩ | ⟨-, hresume, -⟩ | ⟨call, value, -, hresume, -⟩
    · rw [hsame] at hfreed
      exact Or.inl hfreed
    · rw [hresume] at hfreed
      exact Or.inl (freed_of_handleTimeout (freed_of_finish hfreed))
    · rw [hresume] at hfreed
      exact Or.inl (freed_of_finish hfreed)
  | reset | cancel =>
    obtain ⟨call, hcall, hfuture⟩ := hfreed
    exact Or.inl (freed_of_settle hcall hfuture)

theorem Tidy.promised_enter (h : b.Tidy start) (horderly : b.Orderly late (.enter participantId))
    (hfull : (b.arrivals participantId).card ≥ b.threshold)
    (hi : i ∈ b.waiters ∨ i = b.calls.length) : (b.enter participantId).Promised i := by
  rw [enter_release_eq hfull]
  rcases hi with hi | rfl
  · obtain ⟨call, hcall, hreturned, -⟩ := h.undone i hi
    have hpending : call.future = .pending := by
      have hfuture := horderly.2 i hi
      rw [hcall] at hfuture
      exact Option.some_inj.mp hfuture
    have htimeout : call.timedOut = false := Bool.eq_false_iff.mpr fun hfired =>
      (h.sound call (List.mem_iff_getElem?.mpr ⟨i, hcall⟩)).fired hfired hpending
    refine ⟨{ call with future := .result true }, ?_, rfl, htimeout, Or.inl hreturned⟩
    rw [List.getElem?_append_left (by rw [length_settle]; exact h.lt_of_mem_waiters i hi), getElem?_settle,
      hcall, Option.map_some, if_pos hi, EnterCall.setResult, if_pos hpending]
  · refine ⟨⟨participantId, .result true, false, some true⟩, ?_, rfl, rfl, Or.inr rfl⟩
    rw [← length_settle b.waiters true, List.getElem?_concat_length]

theorem participant?_enter (participantId : String) (hi : i < b.calls.length) :
    (b.enter participantId).participant? i = b.participant? i := by
  rw [participant?, participant?, enter]
  split_ifs
  · rw [List.getElem?_append_left (by rwa [length_settle]), getElem?_settle, Option.map_map]
    refine congrArg (fun f => Option.map f b.calls[i]?) (funext fun call => ?_)
    split_ifs
    · exact EnterCall.setResult_participantId true
    · rfl
  all_goals rw [List.getElem?_append_left hi]

theorem participant?_enter_self (participantId : String) :
    (b.enter participantId).participant? b.calls.length = some participantId := by
  rw [participant?, enter]
  split_ifs
  · rw [← length_settle b.waiters true, List.getElem?_concat_length]
    rfl
  all_goals
    rw [List.getElem?_concat_length]
    rfl

theorem handleTimeout_counters (i : Nat) :
    (b.handleTimeout i).threshold = b.threshold ∧ (b.handleTimeout i).generation = b.generation := by
  unfold handleTimeout
  split_ifs
  · exact ⟨rfl, rfl⟩
  · exact ⟨rfl, rfl⟩

theorem step_counters (late : Bool) (event : BarrierEvent) : (b.step late event).threshold = b.threshold ∧
    (b.step late event).generation = b.generation + if b.releases event then 1 else 0 := by
  cases event with
  | enter participantId =>
    rw [DistributedBarrier.step]
    by_cases hfull : (b.arrivals participantId).card ≥ b.threshold
    · rw [if_pos (releases_enter_iff.mpr hfull), enter_release_eq hfull]
      exact ⟨rfl, rfl⟩
    · rw [if_neg (mt releases_enter_iff.mp hfull), enter, if_neg hfull]
      exact ⟨rfl, rfl⟩
  | expire j => exact ⟨rfl, rfl⟩
  | resume j =>
    rw [DistributedBarrier.step]
    rcases resume_cases b late j with ⟨-, hsame⟩ | ⟨-, hresume, -⟩ | ⟨call, value, -, hresume, -⟩
    · rw [hsame]
      exact ⟨rfl, rfl⟩
    · rw [hresume]
      exact handleTimeout_counters j
    · rw [hresume]
      exact ⟨rfl, rfl⟩
  | reset | cancel => exact ⟨rfl, rfl⟩

theorem threshold_after (b : DistributedBarrier) (late : Bool) (events : List BarrierEvent) :
    (b.after late events).threshold = b.threshold :=
  run_invariant (I := fun b' : DistributedBarrier => b'.threshold = b.threshold)
    (fun _ event hthreshold => (step_counters late event).1.trans hthreshold) rfl events

/-! ### Whole runs -/

section
variable (h : b.Tidy 0)
  (horderly : Along (fun b => b.step late) (Orderly late) b (events ++ [.enter participantId]))
include h horderly

theorem mem_gathered_iff (i : Nat) : i ∈ b.gathered late events ↔
    i ∈ (b.after late events).waiters ∨ i = (b.after late events).calls.length := by
  rw [(h.after horderly.of_append_left).mem_waiters_iff horderly.last, gathered, List.mem_append,
    List.mem_singleton, inside, List.mem_filter, List.mem_range, decide_eq_true_eq]

theorem threshold_le_card (hreleases : (b.after late events).releases (.enter participantId) = true) :
    b.threshold ≤ ((b.gathered late events).filterMap
      (b.after late (events ++ [.enter participantId])).participant?).toFinset.card := by
  have htidy := h.after horderly.of_append_left
  have hfull := releases_enter_iff.mp hreleases
  rw [threshold_after, htidy.arrivals_eq horderly.last.1] at hfull
  refine hfull.trans (Finset.card_le_card fun name hname => ?_)
  rw [after_concat, List.mem_toFinset, List.mem_filterMap]
  rcases Finset.mem_insert.mp hname with rfl | hname
  · exact ⟨_, (mem_gathered_iff h horderly _).mpr (Or.inr rfl), participant?_enter_self name⟩
  · obtain ⟨i, hi, hparticipant⟩ := List.mem_filterMap.mp (List.mem_toFinset.mp hname)
    refine ⟨i, (mem_gathered_iff h horderly i).mpr (Or.inl hi), ?_⟩
    exact (participant?_enter participantId (htidy.lt_of_mem_waiters i hi)).trans hparticipant

end

theorem Tidy.exists_release (h : b.Tidy 0) (hcalls : b.calls = [])
    (horderly : Along (fun b => b.step late) (Orderly late) b events)
    (hfreed : (b.after late events).Freed i) : ∃ before participantId,
      before ++ [.enter participantId] <+: events ∧
      (b.after late before).releases (.enter participantId) = true ∧ i ∈ b.gathered late before := by
  induction events using List.reverseRecOn with
  | nil =>
    obtain ⟨call, hcall, -⟩ := hfreed
    change b.calls[i]? = some call at hcall
    rw [hcalls] at hcall
    cases hcall
  | append_singleton events event ih =>
    rw [after_concat] at hfreed
    rcases freed_cases hfreed with hfreed | ⟨hreleases, hi⟩
    · obtain ⟨before, participantId, hbefore, hrelease⟩ := ih horderly.of_append_left hfreed
      exact ⟨before, participantId, hbefore.trans (List.prefix_append _ _), hrelease⟩
    · cases event with
      | enter participantId =>
        exact ⟨events, participantId, List.prefix_rfl, hreleases, (mem_gathered_iff h horderly i).mpr hi⟩
      | _ => cases hreleases

/-- **The rendezvous.** Whoever gets `True` was let go by a release, which found `threshold` participants
inside; all of them get `True`, and a release is what counts a generation. -/
theorem rendezvous {threshold : Int} {b : DistributedBarrier} (hnew : new threshold = .ok b) (late : Bool)
    (events : List BarrierEvent)
    (horderly : Along (fun b => b.step late) (Orderly late) b events) :
    (∀ i, (b.after late events).returned? i = some true → ∃ before participantId,
        before ++ [.enter participantId] <+: events ∧
        (b.after late before).releases (.enter participantId) = true ∧ i ∈ b.gathered late before) ∧
      (∀ before participantId, before ++ [.enter participantId] <+: events →
        (b.after late before).releases (.enter participantId) = true →
        threshold ≤ ((b.gathered late before).filterMap
            (b.after late (before ++ [.enter participantId])).participant?).toFinset.card ∧
          ∀ i ∈ b.gathered late before, ((b.after late events).resume i).returned? i = some true) ∧
      ∀ before event, before ++ [event] <+: events →
        (b.after late (before ++ [event])).generation =
          (b.after late before).generation + if (b.after late before).releases event then 1 else 0 := by
  obtain ⟨htidy, hthreshold, hcalls⟩ := tidy_new hnew
  refine ⟨fun i hreturned => ?_, ?_, fun before event _ => ?_⟩
  · rw [returned?, Option.bind_eq_some_iff] at hreturned
    obtain ⟨call, hcall, hreturned⟩ := hreturned
    have hsound := (htidy.after horderly).sound call (List.mem_iff_getElem?.mpr ⟨i, hcall⟩)
    exact htidy.exists_release hcalls horderly ⟨call, hcall, hsound.truthful hreturned⟩
  · rintro before participantId ⟨rest, rfl⟩ hreleases
    have hbefore := horderly.of_append_left
    refine ⟨?_, fun i hi => ?_⟩
    · rw [← hthreshold]
      exact_mod_cast threshold_le_card htidy hbefore hreleases
    · have hpromised := (htidy.after hbefore.of_append_left).promised_enter hbefore.last
        (releases_enter_iff.mp hreleases) ((mem_gathered_iff htidy hbefore i).mp hi)
      have hstep : (b.after late (before ++ [.enter participantId])).Promised i := by
        rwa [after_concat]
      rw [after, Lib.run_append]
      exact (hstep.after horderly.of_append_right).resume.2
  · rw [after_concat]
    exact (step_counters late event).2

instance (late : Bool) (b : DistributedBarrier) : ∀ event, Decidable (Orderly late b event)
  | .enter _ => inferInstanceAs (Decidable (_ ∧ _))
  | .expire _ => inferInstanceAs (Decidable (∀ call ∈ _, _))
  | .resume _ | .reset | .cancel => .isTrue trivial

def forTwo : DistributedBarrier :=
  { threshold := 2, parties := ∅, state := .waiting, generation := 0, waiters := [], calls := [] }

/-- After a timeout and a reset, two participants meet. -/
theorem rendezvous_after_reset :
    ∃ before participantId, before ++ [.enter participantId] <+:
        [.enter "a", .expire 0, .resume 0, .reset, .enter "a", .enter "b", .resume 1] ∧
      (forTwo.after true before).releases (.enter participantId) = true ∧ 1 ∈ forTwo.gathered true before :=
  (rendezvous (show new 2 = .ok forTwo from rfl) true
    [.enter "a", .expire 0, .resume 0, .reset, .enter "a", .enter "b", .resume 1] (by decide +kernel)).1 1
      (by decide +kernel)

/-- After the timeout of `a`, the parties are those that were there before it: `b` is released alone. -/
theorem released_alone :
    new 2 = .ok forTwo ∧
      (forTwo.after false [.enter "a", .expire 0, .resume 0]).returned? 0 = some false ∧
      (forTwo.after false [.enter "a", .expire 0, .resume 0, .enter "b"]).returned? 1 = some true ∧
      forTwo.gathered false [.enter "a", .expire 0, .resume 0] = [1] := by
  refine ⟨rfl, ?_⟩
  decide +kernel

end DistributedBarrier

end MeshWeaver
