import MeshWeaver.Sync.Semaphore

/-!
# Permits and leases

What a step does to the leases: `acquire` drops the expired ones and then grants, renews or queues, and
`release` drops the expired ones and then hands one permit over. There are never more leases than permits, and
a lease ends by a release or by its expiry only.
-/

namespace MeshWeaver

open Lib

theorem any_getElem?_concat {α : Type} (p : α → Bool) (l : List α) (a : α) (i : Nat) :
    (l ++ [a])[i]?.any p = if i = l.length then p a else l[i]?.any p := by
  split_ifs with hi
  · rw [hi, List.getElem?_concat_length]
    rfl
  · rcases Nat.lt_or_gt_of_ne hi with hlt | hgt
    · rw [List.getElem?_append_left hlt]
    · have hend : (l ++ [a]).length ≤ i := by
        rwa [List.length_append, List.length_singleton]
      rw [List.getElem?_eq_none hend, List.getElem?_eq_none (Nat.le_of_lt hgt)]

theorem any_getElem?_modify {α : Type} (p : α → Bool) (l : List α) (f : α → α) (i j : Nat) :
    (l.modify i f)[j]?.any p = if i = j then l[j]?.any (p ∘ f) else l[j]?.any p := by
  rw [List.getElem?_modify, Option.map_eq_map, Option.any_map]
  split_ifs <;> rfl

namespace DistributedSemaphore

variable {s : DistributedSemaphore} {late : Bool} {holderId : String} {expiry : Rat} {event : SemaphoreEvent}

/-! ### The leases -/

theorem activePermits_eq_length (now : Rat) :
    s.activePermits now = (s.cleanupExpiredLeases now).holders.items.length := by
  rw [activePermits, Dict.values, List.countP_map, List.countP_eq_length_filter]
  rfl

theorem activePermits_le_length (s : DistributedSemaphore) (now : Rat) :
    s.activePermits now ≤ s.holders.items.length := by
  rw [activePermits_eq_length]
  exact List.length_filter_le _ _

theorem get?_cleanupExpiredLeases {now : Rat} :
    (s.cleanupExpiredLeases now).holders.get? holderId = some expiry ↔
      s.holders.get? holderId = some expiry ∧ now < expiry := by
  rw [cleanupExpiredLeases, Dict.get?_filterValues, decide_eq_true_eq]

def Bounded (s : DistributedSemaphore) : Prop := s.holders.items.length ≤ s.totalPermits

theorem Bounded.cleanupExpiredLeases (h : s.Bounded) (now : Rat) : (s.cleanupExpiredLeases now).Bounded :=
  Nat.le_trans (List.length_filter_le _ _) h

/-! ### What the calls do -/

theorem acquire_cases (s : DistributedSemaphore) (holderId : String) (ttlSeconds : Option Rat) (now : Rat) :
    let c := s.cleanupExpiredLeases now
    ((c.holders.get? holderId ≠ none ∨
          c.holders.get? holderId = none ∧ c.holders.items.length < c.totalPermits) ∧
        s.acquire holderId ttlSeconds now = c.letIn holderId (s.leaseTtl ttlSeconds) now) ∨
      (c.holders.get? holderId = none ∧ c.totalPermits ≤ c.holders.items.length ∧
        s.acquire holderId ttlSeconds now = c.enqueue holderId (s.leaseTtl ttlSeconds)) := by
  intro c
  by_cases hholds : c.holders.get? holderId = none
  · have hnot : ¬ (c.holders.get? holderId).isSome := by simp [hholds]
    by_cases hfree : c.holders.items.length < c.totalPermits
    · exact Or.inl ⟨Or.inr ⟨hholds, hfree⟩, by rw [acquire, if_neg hnot, if_pos hfree]⟩
    · exact Or.inr ⟨hholds, Nat.le_of_not_lt hfree, by rw [acquire, if_neg hnot, if_neg hfree]⟩
  · exact Or.inl ⟨Or.inl hholds, by rw [acquire, if_pos (Option.isSome_iff_ne_none.mpr hholds)]⟩

theorem wakeNext_cases (hfree : s.holders.items.length < s.totalPermits) (later : Rat) (queue : List Nat) :
    (queue.filter s.pending = [] ∧ s.wakeNext later queue = { s with waitQueue := [] }) ∨
      ∃ i call rest, queue.filter s.pending = i :: rest.filter s.pending ∧ (i :: rest).Sublist queue ∧
        s.calls[i]? = some call ∧ call.future = .pending ∧
        s.wakeNext later queue = s.handOver later i call rest := by
  induction queue with
  | nil => exact Or.inl ⟨rfl, rfl⟩
  | cons i queue ih =>
    by_cases hpending : s.pending i = true
    · right
      obtain ⟨call, hcall, hfuture⟩ := (Option.any_eq_true _ _).mp hpending
      have hfuture : call.future = .pending := of_decide_eq_true hfuture
      refine ⟨i, call, queue, List.filter_cons_of_pos hpending, List.Sublist.refl _, hcall, hfuture, ?_⟩
      rw [wakeNext, if_pos hfree, hcall]
      exact if_pos hfuture
    · have hnext : s.wakeNext later (i :: queue) = s.wakeNext later queue := by
        rw [wakeNext, if_pos hfree]
        cases hcall : s.calls[i]? with
        | none => rfl
        | some call =>
          have hdone : call.future ≠ .pending := by
            intro hfuture
            exact hpending (by simp [pending, hcall, hfuture])
          exact if_neg hdone
      rw [hnext, List.filter_cons_of_neg hpending]
      refine ih.imp_right ?_
      rintro ⟨j, call, rest, hfilter, hsub, hrest⟩
      exact ⟨j, call, rest, hfilter, hsub.cons i, hrest⟩

theorem length_withdraw (hholds : s.holders.get? holderId ≠ none) :
    (s.withdraw holderId).holders.items.length + 1 = s.holders.items.length := by
  obtain ⟨expiry, hexpiry⟩ := Option.ne_none_iff_exists'.mp hholds
  have hlength := s.holders.length_items_erase holderId
  rw [hexpiry] at hlength
  exact hlength

theorem release_cases (hbounded : s.Bounded) (holderId : String) (now later : Rat) :
    let c := s.cleanupExpiredLeases now
    (c.holders.get? holderId = none ∧ (s.release holderId now later).1 = c) ∨
      (c.holders.get? holderId ≠ none ∧ s.waitQueue.filter s.pending = [] ∧
        (s.release holderId now later).1 = { c.withdraw holderId with waitQueue := [] }) ∨
      (c.holders.get? holderId ≠ none ∧ ∃ i call rest,
        s.waitQueue.filter s.pending = i :: rest.filter s.pending ∧ (i :: rest).Sublist s.waitQueue ∧
        s.calls[i]? = some call ∧ call.future = .pending ∧
        (s.release holderId now later).1 = (c.withdraw holderId).handOver later i call rest) := by
  intro c
  by_cases hholds : c.holders.get? holderId = none
  · exact Or.inl ⟨hholds, by rw [release, if_pos (Option.isNone_iff_eq_none.mpr hholds)]⟩
  · have hrelease : (s.release holderId now later).1 = (c.withdraw holderId).wakeNext later s.waitQueue := by
      rw [release, if_neg (mt Option.isNone_iff_eq_none.mp hholds)]
      rfl
    have hlength := length_withdraw hholds
    have hcapacity : c.holders.items.length ≤ c.totalPermits := hbounded.cleanupExpiredLeases now
    have hfree : (c.withdraw holderId).holders.items.length < (c.withdraw holderId).totalPermits := by
      change _ < c.totalPermits
      omega
    rw [hrelease]
    exact Or.inr ((wakeNext_cases hfree later s.waitQueue).imp (fun h => ⟨hholds, h⟩) fun h => ⟨hholds, h⟩)

theorem Bounded.acquire (h : s.Bounded) (holderId : String) (ttlSeconds : Option Rat) (now : Rat) :
    (s.acquire holderId ttlSeconds now).Bounded := by
  have hclean := h.cleanupExpiredLeases now
  have hinsert := (s.cleanupExpiredLeases now).holders.length_items_insert holderId
    (now + s.leaseTtl ttlSeconds)
  unfold Bounded at hclean ⊢
  rcases acquire_cases s holderId ttlSeconds now with ⟨hholds | ⟨-, hfree⟩, heq⟩ | ⟨-, -, heq⟩
  · obtain ⟨expiry, hexpiry⟩ := Option.ne_none_iff_exists'.mp hholds
    rw [hexpiry, Option.toList_some, List.length_singleton] at hinsert
    rw [heq]
    dsimp only [letIn]
    omega
  · rw [heq]
    dsimp only [letIn]
    omega
  · rwa [heq]

theorem Bounded.release (h : s.Bounded) (holderId : String) (now later : Rat) :
    (s.release holderId now later).1.Bounded := by
  have hclean := h.cleanupExpiredLeases now
  unfold Bounded at hclean ⊢
  rcases release_cases h holderId now later with ⟨-, heq⟩ | ⟨hholds, -, heq⟩ |
    ⟨hholds, i, call, rest, -, -, -, -, heq⟩
  · rwa [heq]
  · have hlength := length_withdraw hholds
    rw [heq]
    dsimp only [withdraw] at hlength ⊢
    omega
  · have hlength := length_withdraw hholds
    have hinsert := ((s.cleanupExpiredLeases now).withdraw holderId).holders.length_items_insert call.holderId
      (later + call.leaseTtl)
    rw [heq]
    dsimp only [withdraw, handOver] at hlength hinsert ⊢
    omega

theorem totalPermits_wakeNext (later : Rat) (queue : List Nat) :
    (s.wakeNext later queue).totalPermits = s.totalPermits := by
  induction queue with
  | nil => rfl
  | cons i queue ih =>
    rw [wakeNext]
    split_ifs
    · split
      · exact ih
      · split_ifs
        · rfl
        · exact ih
    · rfl

theorem totalPermits_release (holderId : String) (now later : Rat) :
    (s.release holderId now later).1.totalPermits = s.totalPermits := by
  unfold release
  dsimp only
  split_ifs
  · rfl
  · exact totalPermits_wakeNext later s.waitQueue

theorem holders_resume (i : Nat) : (s.resume i).holders = s.holders ∧ (s.resume i).totalPermits = s.totalPermits := by
  unfold resume
  split
  · exact ⟨rfl, rfl⟩
  · split_ifs
    · exact ⟨rfl, rfl⟩
    · exact ⟨rfl, rfl⟩
    · split <;> exact ⟨rfl, rfl⟩

theorem Bounded.step (h : s.Bounded) (event : SemaphoreEvent) : (s.step late event).Bounded := by
  cases event with
  | acquire holderId ttlSeconds now => exact h.acquire holderId ttlSeconds now
  | release holderId now later => exact h.release holderId now later
  | cleanupExpiredLeases now => exact h.cleanupExpiredLeases now
  | expire i => exact h
  | resume i =>
    change (s.resume i).Bounded
    rwa [Bounded, (holders_resume i).1, (holders_resume i).2]
  | abandon i => exact h

theorem totalPermits_step (event : SemaphoreEvent) : (s.step late event).totalPermits = s.totalPermits := by
  cases event with
  | acquire holderId ttlSeconds now =>
    rcases acquire_cases s holderId ttlSeconds now with ⟨-, heq⟩ | ⟨-, -, heq⟩
    all_goals
      rw [step, heq]
      rfl
  | release holderId now later => exact totalPermits_release holderId now later
  | cleanupExpiredLeases now | expire i => rfl
  | resume i => exact (holders_resume i).2
  | abandon i => rfl

/-! ### Who is admitted -/

theorem admitted_letIn (holderId : String) (leaseTtl now : Rat) (i : Nat) :
    ((s.cleanupExpiredLeases now).letIn holderId leaseTtl now).admitted i =
      if i = s.calls.length then true else s.admitted i :=
  any_getElem?_concat _ s.calls _ i

theorem admitted_enqueue (holderId : String) (leaseTtl now : Rat) (i : Nat) :
    ((s.cleanupExpiredLeases now).enqueue holderId leaseTtl).admitted i =
      if i = s.calls.length then false else s.admitted i :=
  any_getElem?_concat _ s.calls _ i

theorem admitted_length : s.admitted s.calls.length = false := by
  rw [admitted, List.getElem?_eq_none (Nat.le_refl _), Option.any_none]

theorem admitted_handOver (releaser : String) (now later : Rat) {i : Nat} {call : AcquireCall}
    (hcall : s.calls[i]? = some call) (queue : List Nat) (j : Nat) :
    (((s.cleanupExpiredLeases now).withdraw releaser).handOver later i call queue).admitted j =
      if i = j then true else s.admitted j := by
  refine (any_getElem?_modify _ s.calls _ i j).trans (ite_congr rfl (fun hij => ?_) fun _ => rfl)
  rw [← hij, hcall]
  rfl

theorem admitted_modify {f : AcquireCall → AcquireCall}
    (hf : ∀ call, (f call).future = .result true ↔ call.future = .result true) (i j : Nat) :
    ({ s with calls := s.calls.modify i f } : DistributedSemaphore).admitted j = s.admitted j := by
  have hsame : (fun call : AcquireCall => decide (call.future = .result true)) ∘ f =
      fun call => decide (call.future = .result true) :=
    funext fun call => decide_eq_decide.mpr (hf call)
  rw [admitted, any_getElem?_modify, hsame, ite_self, admitted]

theorem admitted_finish (i j : Nat) (value : Bool) : (s.finish i value).admitted j = s.admitted j :=
  admitted_modify (f := fun call => { call with returned := some value }) (fun _ => Iff.rfl) i j

theorem cancelFuture_admitted (call : AcquireCall) :
    call.cancelFuture.future = .result true ↔ call.future = .result true := by
  unfold AcquireCall.cancelFuture
  split_ifs with hpending
  · simp [hpending]
  · rfl

theorem admitted_resume (i j : Nat) : (s.resume i).admitted j = s.admitted j := by
  unfold resume
  split
  · rfl
  · split_ifs
    · rfl
    · exact admitted_finish i j false
    · split
      · exact admitted_finish i j _
      · rfl

theorem admitted_expire (i j : Nat) : (s.expire late i).admitted j = s.admitted j := by
  refine admitted_modify (fun call => ?_) i j
  split_ifs
  · exact cancelFuture_admitted call
  · rfl

theorem Admits.cases (hbounded : s.Bounded) {i : Nat} (h : s.Admits late event i) :
    (∃ holderId ttlSeconds now, event = .acquire holderId ttlSeconds now ∧ i = s.calls.length ∧
        s.step late event =
          (s.cleanupExpiredLeases now).letIn holderId (s.leaseTtl ttlSeconds) now) ∨
      ∃ holderId now later call queue, event = .release holderId now later ∧ s.calls[i]? = some call ∧
        s.step late event = ((s.cleanupExpiredLeases now).withdraw holderId).handOver later i call queue := by
  obtain ⟨hbefore, hafter⟩ := h
  have hkept : s.admitted i ≠ true := Bool.eq_false_iff.mp hbefore
  cases event with
  | acquire holderId ttlSeconds now =>
    rcases acquire_cases s holderId ttlSeconds now with ⟨-, heq⟩ | ⟨-, -, heq⟩
    · refine Or.inl ⟨holderId, ttlSeconds, now, rfl, ?_, heq⟩
      rw [step, heq, admitted_letIn] at hafter
      by_contra hi
      rw [if_neg hi] at hafter
      exact hkept hafter
    · rw [step, heq, admitted_enqueue] at hafter
      split_ifs at hafter
      exact absurd hafter hkept
  | release releaser now later =>
    rcases release_cases hbounded releaser now later with ⟨-, heq⟩ | ⟨-, -, heq⟩ |
      ⟨-, j, call, rest, -, -, hcall, -, heq⟩
    · rw [step, heq] at hafter
      exact absurd hafter hkept
    · rw [step, heq] at hafter
      exact absurd hafter hkept
    · rw [step, heq, admitted_handOver releaser now later hcall] at hafter
      by_cases hij : j = i
      · subst hij
        exact Or.inr ⟨releaser, now, later, call, rest, rfl, hcall, heq⟩
      · rw [if_neg hij] at hafter
        exact absurd hafter hkept
  | cleanupExpiredLeases now => exact absurd hafter hkept
  | expire j =>
    rw [step, admitted_expire] at hafter
    exact absurd hafter hkept
  | resume j =>
    rw [step, admitted_resume] at hafter
    exact absurd hafter hkept
  | abandon j =>
    rw [step, abandon, admitted_modify cancelFuture_admitted] at hafter
    exact absurd hafter hkept

theorem Admits.lease (hbounded : s.Bounded) {i : Nat}
    (h : s.Admits late event i) (hholder : (s.step late event).holder? i = some holderId) :
    (s.step late event).holders.get? holderId ≠ none := by
  rcases h.cases hbounded with ⟨holderId', ttlSeconds, now, rfl, rfl, heq⟩ |
    ⟨releaser, now, later, call, queue, rfl, hcall, heq⟩
  · rw [heq, holder?, letIn] at hholder
    have hsame : (s.cleanupExpiredLeases now).calls = s.calls := rfl
    rw [hsame, List.getElem?_concat_length, Option.map_some, Option.some.injEq] at hholder
    rw [heq, ← hholder, letIn, Dict.get?_insert_self]
    exact nofun
  · rw [heq, holder?, handOver] at hholder
    have hsame : ((s.cleanupExpiredLeases now).withdraw releaser).calls = s.calls := rfl
    rw [hsame, List.getElem?_modify_eq, hcall, Option.map_eq_map, Option.map_some, Option.map_some,
      Option.some.injEq] at hholder
    rw [heq, ← hholder, handOver, Dict.get?_insert_self]
    exact nofun

/-! ### Leases that stay -/

theorem get?_acquire {now : Rat}
    (hkept : (s.cleanupExpiredLeases now).holders.get? holderId = some expiry) (holderId' : String)
    (ttlSeconds : Option Rat) :
    (s.acquire holderId' ttlSeconds now).holders.get? holderId = some expiry ∨
      (s.acquire holderId' ttlSeconds now).holders.get? holderId ≠ none ∧
        ∃ i, s.Admits late (.acquire holderId' ttlSeconds now) i ∧
          (s.acquire holderId' ttlSeconds now).holder? i = some holderId := by
  rcases acquire_cases s holderId' ttlSeconds now with ⟨-, heq⟩ | ⟨-, -, heq⟩
  · by_cases hsame : holderId = holderId'
    · subst hsame
      refine Or.inr ⟨?_, s.calls.length, ⟨admitted_length, ?_⟩, ?_⟩
      · rw [heq, letIn, Dict.get?_insert_self]
        exact nofun
      · rw [step, heq, admitted_letIn]
        exact if_pos rfl
      · rw [heq, holder?, letIn]
        exact congrArg (Option.map _) List.getElem?_concat_length
    · left
      rwa [heq, letIn, Dict.get?_insert_of_ne _ _ hsame]
  · left
    rwa [heq]

theorem get?_release (hbounded : s.Bounded) {holderId releaser : String} (hother : holderId ≠ releaser)
    {now : Rat} (hkept : (s.cleanupExpiredLeases now).holders.get? holderId = some expiry) (later : Rat) :
    (s.release releaser now later).1.holders.get? holderId = some expiry ∨
      (s.release releaser now later).1.holders.get? holderId ≠ none ∧
        ∃ i, s.Admits late (.release releaser now later) i ∧
          (s.release releaser now later).1.holder? i = some holderId := by
  have herase : ((s.cleanupExpiredLeases now).withdraw releaser).holders.get? holderId = some expiry := by
    rwa [withdraw, Dict.get?_erase, if_neg hother]
  rcases release_cases hbounded releaser now later with ⟨-, heq⟩ | ⟨-, -, heq⟩ |
    ⟨-, i, call, rest, -, -, hcall, hfuture, heq⟩
  · left
    rwa [heq]
  · left
    rwa [heq]
  · by_cases hsame : holderId = call.holderId
    · refine Or.inr ⟨?_, i, ⟨?_, ?_⟩, ?_⟩
      · rw [heq, handOver, hsame, Dict.get?_insert_self]
        exact nofun
      · rw [admitted, hcall, Option.any_some, hfuture]
        rfl
      · rw [step, heq, admitted_handOver releaser now later hcall]
        exact if_pos rfl
      · rw [heq, holder?, handOver, hsame]
        have hcalls : ((s.cleanupExpiredLeases now).withdraw releaser).calls = s.calls := rfl
        rw [hcalls, List.getElem?_modify_eq, hcall]
        rfl
    · left
      rwa [heq, handOver, Dict.get?_insert_of_ne _ _ hsame]

/-- **A lease stays.** Unless the holder releases it or it has expired, it is there behind the event, and it
is the same one unless a call of the holder is admitted. -/
theorem Undisturbed.get?_step (hbounded : s.Bounded)
    (h : s.Undisturbed holderId event) (hlease : s.holders.get? holderId = some expiry) :
    (s.step late event).holders.get? holderId = some expiry ∨
      (s.step late event).holders.get? holderId ≠ none ∧
        ∃ i, s.Admits late event i ∧ (s.step late event).holder? i = some holderId := by
  have hclean {now : Rat} (hnow : reading? event = some now) :
      (s.cleanupExpiredLeases now).holders.get? holderId = some expiry :=
    get?_cleanupExpiredLeases.mpr ⟨hlease, h.2 now hnow expiry hlease⟩
  cases event with
  | acquire holderId' ttlSeconds now => exact get?_acquire (hclean rfl) holderId' ttlSeconds
  | release releaser now later =>
    refine get?_release hbounded ?_ (hclean rfl) later
    rintro rfl
    exact h.1 rfl
  | cleanupExpiredLeases now => exact Or.inl (hclean rfl)
  | expire i => exact Or.inl hlease
  | resume i =>
    left
    rwa [step, (holders_resume i).1]
  | abandon i => exact Or.inl hlease

/-! ### Runs -/

variable (events : List SemaphoreEvent)

theorem after_append (events' : List SemaphoreEvent) :
    s.after late (events ++ events') = (s.after late events).after late events' :=
  run_append _ s events events'

theorem after_concat (event : SemaphoreEvent) :
    s.after late (events ++ [event]) = (s.after late events).step late event :=
  after_append events [event]

theorem Bounded.after (h : s.Bounded) : (s.after late events).Bounded :=
  run_invariant (fun _ event hs => hs.step event) h events

theorem totalPermits_after : (s.after late events).totalPermits = s.totalPermits :=
  run_invariant (I := fun s' : DistributedSemaphore => s'.totalPermits = s.totalPermits)
    (fun _ event hs => (totalPermits_step event).trans hs) rfl events

theorem lease_kept (hbounded : s.Bounded) (hlease : s.holders.get? holderId ≠ none) {events : List SemaphoreEvent}
    (h : Along (fun s => s.step late) (fun s => s.Undisturbed holderId) s events) :
    (s.after late events).holders.get? holderId ≠ none := by
  refine (h.invariant (I := fun s => s.Bounded ∧ s.holders.get? holderId ≠ none) ?_ ⟨hbounded, hlease⟩).2
  rintro s event ⟨hs, hholds⟩ hundisturbed
  refine ⟨hs.step event, ?_⟩
  obtain ⟨expiry, hexpiry⟩ := Option.ne_none_iff_exists'.mp hholds
  rcases hundisturbed.get?_step hs hexpiry with hsame | ⟨hnew, -⟩
  · rw [hsame]
    exact nofun
  · exact hnew

theorem lease_same (hbounded : s.Bounded)
    (hlease : s.holders.get? holderId = some expiry) {events : List SemaphoreEvent}
    (h : Along (fun s => s.step late) (fun s => s.Undisturbed holderId) s events)
    (hnobody : Along (fun s => s.step late) (fun s event => ∀ i, s.Admits late event i →
      (s.step late event).holder? i ≠ some holderId) s events) :
    (s.after late events).holders.get? holderId = some expiry := by
  refine ((h.and hnobody).invariant
    (I := fun s => s.Bounded ∧ s.holders.get? holderId = some expiry) ?_ ⟨hbounded, hlease⟩).2
  rintro s event ⟨hs, hexpiry⟩ ⟨hundisturbed, hother⟩
  refine ⟨hs.step event, ?_⟩
  rcases hundisturbed.get?_step hs hexpiry with hsame | ⟨-, i, hadmits, hholder⟩
  · exact hsame
  · exact absurd hholder (hother i hadmits)

theorem totalPermits_new {totalPermits : Int} {defaultTtlSeconds : Rat}
    (hnew : new totalPermits defaultTtlSeconds = .ok s) :
    s.totalPermits = totalPermits.toNat ∧ 0 < totalPermits ∧ s.Bounded := by
  unfold new at hnew
  split_ifs at hnew with hpositive
  cases hnew
  exact ⟨rfl, by omega, Nat.zero_le _⟩

/-- **Semaphore safety.** At every point of every run there are at most as many unexpired leases as permits,
and a holder that is granted a permit, or whose lease is renewed, has an entry for as long as it does not
release it and no event reads a time at which the lease it then has is over; the entry stays the same while no
other call of the holder is admitted. -/
theorem leases_safe (late : Bool) {totalPermits : Int} {defaultTtlSeconds : Rat}
    (hnew : new totalPermits defaultTtlSeconds = .ok s) (events : List SemaphoreEvent) :
    (∀ now, ((s.after late events).activePermits now : Int) ≤ totalPermits) ∧
      ∀ event i holderId, (s.after late events).Admits late event i →
        (s.after late (events ++ [event])).holder? i = some holderId →
        ∀ events', Along (fun s => s.step late) (fun s => s.Undisturbed holderId)
            (s.after late (events ++ [event])) events' →
          (s.after late (events ++ event :: events')).holders.get? holderId ≠ none ∧
          (Along (fun s => s.step late) (fun s event => ∀ j, s.Admits late event j →
              (s.step late event).holder? j ≠ some holderId) (s.after late (events ++ [event])) events' →
            (s.after late (events ++ event :: events')).holders.get? holderId =
              (s.after late (events ++ [event])).holders.get? holderId) := by
  obtain ⟨htotal, hpositive, hbounded⟩ := totalPermits_new hnew
  refine ⟨fun now => ?_, fun event i holderId hadmits hholder events' hundisturbed => ?_⟩
  · have hafter : (s.after late events).Bounded := hbounded.after events
    have hactive := (s.after late events).activePermits_le_length now
    rw [Bounded, totalPermits_after, htotal] at hafter
    omega
  · have hstep : (s.after late (events ++ [event])).Bounded := hbounded.after _
    have hrun : s.after late (events ++ event :: events') =
        (s.after late (events ++ [event])).after late events' := by
      rw [← after_append, List.append_assoc, List.singleton_append]
    have hlease : (s.after late (events ++ [event])).holders.get? holderId ≠ none := by
      rw [after_concat] at hholder ⊢
      exact hadmits.lease (hbounded.after events) hholder
    rw [hrun]
    refine ⟨lease_kept hstep hlease hundisturbed, fun hnobody => ?_⟩
    obtain ⟨expiry, hexpiry⟩ := Option.ne_none_iff_exists'.mp hlease
    rw [hexpiry]
    exact lease_same hstep hexpiry hundisturbed hnobody

/-- The waiter keeps the permit it is handed over while another call waits for it and gives up. -/
theorem leases_safe_waiter :
    let s : DistributedSemaphore := ⟨1, 30, .empty, [], []⟩
    let events : List SemaphoreEvent := [.acquire "a" (some 5) 0, .acquire "b" (some 10) 1]
    let events' : List SemaphoreEvent := [.acquire "c" none 4, .expire 2, .cleanupExpiredLeases 11, .resume 2]
    new 1 30 = .ok s ∧ (s.after true events).Admits true (.release "a" 2 2) 1 ∧
      (s.after true (events ++ .release "a" 2 2 :: events')).holders.get? "b" ≠ none := by
  intro s events events'
  have hnew : new 1 30 = .ok s := rfl
  have hadmits : (s.after true events).Admits true (.release "a" 2 2) 1 := by decide +kernel
  have hundisturbed : Along (fun s => s.step true) (fun s => s.Undisturbed "b")
      (s.after true (events ++ [.release "a" 2 2])) events' := by decide +kernel
  have hsafe := (leases_safe true hnew events).2 (.release "a" 2 2) 1 "b" hadmits (by decide +kernel)
  exact ⟨hnew, hadmits, (hsafe events' hundisturbed).1⟩

end DistributedSemaphore

end MeshWeaver
