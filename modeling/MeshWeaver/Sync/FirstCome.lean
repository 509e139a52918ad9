import MeshWeaver.Sync.Permits

/-!
# First come, first served

A lease that expires wakes nobody, and a release wakes one waiter, so a permit can be idle while calls wait, and a
later call can take it. This does not happen exactly when, as long as somebody waits, every `acquire` finds all
permits leased, and every `release` either finds them leased and passes the one it gives back to somebody else, or has
only one call to wake.
-/

namespace MeshWeaver

open Lib

namespace DistributedSemaphore

section Definitions

variable (s : DistributedSemaphore) (late : Bool)

/-- The calls in the queue whose futures are not done. -/
def waiting : List Nat := s.waitQueue.filter s.pending

def holds (holderId : String) (now : Rat) : Bool := (s.holders.get? holderId).any fun expiry => now < expiry

/-- Nobody waits, or all permits are leased. -/
def Busy (now : Rat) : Prop := s.waiting = [] ∨ s.totalPermits ≤ s.activePermits now
deriving Decidable

def finished? : SemaphoreEvent → Option Rat
  | .acquire _ _ now => some now
  | .release _ _ later => some later
  | _ => none

def renews : SemaphoreEvent → Bool
  | .acquire holderId _ now => s.holds holderId now
  | _ => false

/-- Behind an `acquire` or a `release` no permit is free while somebody waits, and a call that is granted a
permit has not arrived later than one that still waits. -/
def Fair (event : SemaphoreEvent) : Prop :=
  (∀ now ∈ finished? event, (s.step late event).Busy now) ∧
    ∀ j, s.Admits late event j → s.renews event = false → ∀ i < j, (s.step late event).pending i = false

def next? : Option AcquireCall := s.waiting.head?.bind fun i => s.calls[i]?

/-- While somebody waits, an `acquire` finds all permits leased and renews no lease for no time, and a release
wakes the only waiter, or finds all permits leased and gives its own to another holder. -/
def NoSlack : SemaphoreEvent → Prop
  | .acquire holderId ttlSeconds now =>
    s.waiting = [] ∨
      s.activePermits now = s.totalPermits ∧ (s.holds holderId now = true → 0 < s.leaseTtl ttlSeconds)
  | .release holderId now later =>
    s.waiting = [] ∨ (s.holds holderId now = true ∧ s.waiting.length = 1) ∨
      s.activePermits now = s.totalPermits ∧
        (∀ lease ∈ s.holders.items, now < lease.2 → lease.1 ≠ holderId → later < lease.2) ∧
        (s.holds holderId now = true → ∀ call ∈ s.next?,
          0 < call.leaseTtl ∧ (call.holderId = holderId ∨ s.holds call.holderId now = false))
  | _ => True

instance (event : SemaphoreEvent) : Decidable (s.NoSlack event) :=
  match event with
  | .acquire .. => inferInstanceAs (Decidable (_ ∨ _))
  | .release .. => inferInstanceAs (Decidable (_ ∨ _))
  | .cleanupExpiredLeases _ | .expire _ | .resume _ | .abandon _ => .isTrue trivial

/-- The invariant: the queue is in the order of arrival and holds all calls that wait. -/
structure Queued (s : DistributedSemaphore) : Prop where
  bounded : s.Bounded
  increasing : s.waitQueue.Pairwise (· < ·)
  known : ∀ i ∈ s.waitQueue, i < s.calls.length
  queued : ∀ i, s.pending i = true → i ∈ s.waitQueue
  fired : ∀ call ∈ s.calls, call.timedOut = true → call.future ≠ .pending

end Definitions

variable {s : DistributedSemaphore} {late : Bool} {holderId : String} {now : Rat}

/-! ### The calls that wait -/

theorem pending_letIn (holderId : String) (leaseTtl now : Rat) (i : Nat) :
    ((s.cleanupExpiredLeases now).letIn holderId leaseTtl now).pending i =
      if i = s.calls.length then false else s.pending i :=
  any_getElem?_concat _ s.calls _ i

theorem pending_enqueue (holderId : String) (leaseTtl now : Rat) (i : Nat) :
    ((s.cleanupExpiredLeases now).enqueue holderId leaseTtl).pending i =
      if i = s.calls.length then true else s.pending i :=
  any_getElem?_concat _ s.calls _ i

theorem pending_handOver (releaser : String) (now later : Rat) {i : Nat} {call : AcquireCall}
    (hcall : s.calls[i]? = some call) (queue : List Nat) (j : Nat) :
    (((s.cleanupExpiredLeases now).withdraw releaser).handOver later i call queue).pending j =
      if i = j then false else s.pending j := by
  refine (any_getElem?_modify _ s.calls _ i j).trans (ite_congr rfl (fun hij => ?_) fun _ => rfl)
  rw [← hij, hcall]
  rfl

theorem lt_length_of_pending {i : Nat} (h : s.pending i = true) : i < s.calls.length := by
  obtain ⟨call, hcall, -⟩ := (Option.any_eq_true _ _).mp h
  exact (List.getElem?_eq_some_iff.mp hcall).1

theorem Queued.mem_waiting_iff (h : s.Queued) (i : Nat) : i ∈ s.waiting ↔ s.pending i = true := by
  rw [waiting, List.mem_filter]
  exact ⟨And.right, fun hpending => ⟨h.queued i hpending, hpending⟩⟩

theorem Queued.waiting_eq_nil_iff (h : s.Queued) : s.waiting = [] ↔ ∀ i, s.pending i = false := by
  rw [List.eq_nil_iff_forall_not_mem]
  refine forall_congr' fun i => ?_
  rw [h.mem_waiting_iff, Bool.not_eq_true]

theorem Queued.waiting_letIn (h : s.Queued) (holderId : String) (leaseTtl now : Rat) :
    ((s.cleanupExpiredLeases now).letIn holderId leaseTtl now).waiting = s.waiting := by
  refine List.filter_congr fun i hi => ?_
  have hlt := h.known i hi
  rw [pending_letIn, if_neg (Nat.ne_of_lt hlt)]

/-! ### Invariance -/

theorem Queued.new {totalPermits : Int} {defaultTtlSeconds : Rat}
    (hnew : new totalPermits defaultTtlSeconds = .ok s) : s.Queued := by
  have hbounded := (totalPermits_new hnew).2.2
  unfold DistributedSemaphore.new at hnew
  split_ifs at hnew
  cases hnew
  exact ⟨hbounded, List.Pairwise.nil, nofun, nofun, nofun⟩

theorem Queued.acquire (h : s.Queued) (holderId : String) (ttlSeconds : Option Rat) (now : Rat) :
    (s.acquire holderId ttlSeconds now).Queued := by
  have hbounded := h.bounded.acquire holderId ttlSeconds now
  have hfired (call : AcquireCall) (hcall : call.timedOut = true → call.future ≠ .pending) :
      ∀ c ∈ s.calls ++ [call], c.timedOut = true → c.future ≠ .pending := by
    intro c hc
    rcases List.mem_append.mp hc with hold | hlast
    · exact h.fired c hold
    · rwa [List.mem_singleton.mp hlast]
  rcases acquire_cases s holderId ttlSeconds now with ⟨-, heq⟩ | ⟨-, -, heq⟩
  · rw [heq] at hbounded ⊢
    refine ⟨hbounded, h.increasing, fun i hi => ?_, fun i hi => ?_, hfired _ (fun hout => by cases hout)⟩
    · have hlt := h.known i hi
      simp only [letIn, cleanupExpiredLeases, List.length_append, List.length_singleton]
      omega
    · rw [pending_letIn] at hi
      split_ifs at hi
      exact h.queued i hi
  · rw [heq] at hbounded ⊢
    refine ⟨hbounded, ?_, fun i hi => ?_, fun i hi => ?_, hfired _ (fun hout => by cases hout)⟩
    · refine List.pairwise_append.mpr ⟨h.increasing, List.pairwise_singleton _ _, fun i hi j hj => ?_⟩
      rw [List.mem_singleton.mp hj]
      exact h.known i hi
    · simp only [enqueue, cleanupExpiredLeases, List.length_append, List.length_singleton]
      rcases List.mem_append.mp hi with hold | hlast
      · have hlt := h.known i hold
        omega
      · have heq : i = s.calls.length := List.mem_singleton.mp hlast
        omega
    · rw [pending_enqueue] at hi
      split_ifs at hi with hlast
      · exact List.mem_append_right _ (List.mem_singleton.mpr hlast)
      · exact List.mem_append_left _ (h.queued i hi)

theorem Queued.release (h : s.Queued) (holderId : String) (now later : Rat) :
    (s.release holderId now later).1.Queued := by
  have hbounded := h.bounded.release holderId now later
  rcases release_cases h.bounded holderId now later with ⟨-, heq⟩ | ⟨-, hnobody, heq⟩ |
    ⟨-, i, call, rest, hwaiting, hsub, hcall, -, heq⟩
  · rw [heq] at hbounded ⊢
    exact ⟨hbounded, h.increasing, h.known, h.queued, h.fired⟩
  · rw [heq] at hbounded ⊢
    refine ⟨hbounded, List.Pairwise.nil, nofun, fun i hi => ?_, h.fired⟩
    have hmem : i ∈ s.waiting := (h.mem_waiting_iff i).mpr hi
    rw [waiting, hnobody] at hmem
    exact absurd hmem List.not_mem_nil
  · rw [heq] at hbounded ⊢
    have hrest : rest.Sublist s.waitQueue := (List.sublist_cons_self i rest).trans hsub
    refine ⟨hbounded, h.increasing.sublist hrest, fun j hj => ?_, fun j hj => ?_, ?_⟩
    · exact Nat.lt_of_lt_of_eq (h.known j (hrest.subset hj)) (List.length_modify _ _ _).symm
    · rw [pending_handOver holderId now later hcall] at hj
      split_ifs at hj with hij
      have hmem : j ∈ s.waiting := (h.mem_waiting_iff j).mpr hj
      rw [waiting, hwaiting, List.mem_cons] at hmem
      exact (List.mem_filter.mp (hmem.resolve_left (Ne.symm hij))).1
    · exact forall_mem_modify h.fired fun _ _ _ => nofun

theorem Queued.modify (h : s.Queued) (i : Nat) {f : AcquireCall → AcquireCall}
    (hf : ∀ call, (f call).future = .pending → call.future = .pending)
    (hfired : ∀ call, (call.timedOut = true → call.future ≠ .pending) →
      (f call).timedOut = true → (f call).future ≠ .pending) :
    ({ s with calls := s.calls.modify i f } : DistributedSemaphore).Queued := by
  refine ⟨h.bounded, h.increasing, fun j hj => ?_, fun j hj => h.queued j ?_, ?_⟩
  · exact Nat.lt_of_lt_of_eq (h.known j hj) (List.length_modify _ _ _).symm
  · rw [pending, any_getElem?_modify] at hj
    split_ifs at hj with hij
    · obtain ⟨call, hcall, hfuture⟩ := (Option.any_eq_true _ _).mp hj
      exact (Option.any_eq_true _ _).mpr ⟨call, hcall, decide_eq_true (hf call (of_decide_eq_true hfuture))⟩
    · exact hj
  · exact forall_mem_modify h.fired fun call hcall =>
      hfired call (h.fired call (List.mem_of_getElem? hcall))

theorem cancelFuture_ne_pending (call : AcquireCall) : call.cancelFuture.future ≠ .pending := by
  unfold AcquireCall.cancelFuture
  split_ifs with hpending
  · exact nofun
  · exact hpending

theorem Queued.finish (h : s.Queued) (i : Nat) (value : Bool) : (s.finish i value).Queued :=
  h.modify i (fun _ => id) fun _ => id

theorem Queued.dequeue (h : s.Queued) {i : Nat} (hi : s.pending i = false) :
    ({ s with waitQueue := s.waitQueue.erase i } : DistributedSemaphore).Queued := by
  refine ⟨h.bounded, h.increasing.sublist List.erase_sublist, fun j hj => ?_, fun j hj => ?_, h.fired⟩
  · exact h.known j (List.mem_of_mem_erase hj)
  · have hne : j ≠ i := by
      rintro rfl
      exact Bool.false_ne_true (hi.symm.trans hj)
    exact (List.mem_erase_of_ne hne).mpr (h.queued j hj)

theorem Queued.resume (h : s.Queued) (i : Nat) : (s.resume i).Queued := by
  unfold DistributedSemaphore.resume
  split
  · exact h
  · rename_i call hcall
    split_ifs with hreturned htimedOut
    · exact h
    · have hdone : s.pending i = false := by
        have hfuture := h.fired call (List.mem_of_getElem? hcall) htimedOut
        simp [pending, hcall, hfuture]
      exact (h.dequeue hdone).finish i false
    · split
      · exact h.finish i _
      · exact h

theorem Queued.step (h : s.Queued) (event : SemaphoreEvent) : (s.step late event).Queued := by
  cases event with
  | acquire holderId ttlSeconds now => exact h.acquire holderId ttlSeconds now
  | release holderId now later => exact h.release holderId now later
  | cleanupExpiredLeases now =>
    exact ⟨h.bounded.cleanupExpiredLeases now, h.increasing, h.known, h.queued, h.fired⟩
  | expire i =>
    refine h.modify i (fun call hfuture => ?_) fun call hfired => ?_
    · split_ifs at hfuture
      · exact absurd hfuture (cancelFuture_ne_pending call)
      · exact hfuture
    · split_ifs
      · exact fun _ => cancelFuture_ne_pending call
      · exact hfired
  | resume i => exact h.resume i
  | abandon i =>
    exact h.modify i (fun call hfuture => absurd hfuture (cancelFuture_ne_pending call))
      fun call _ _ => cancelFuture_ne_pending call

/-! ### One step -/

theorem holds_iff (holderId : String) (now : Rat) :
    s.holds holderId now = true ↔ (s.cleanupExpiredLeases now).holders.get? holderId ≠ none := by
  rw [holds, Option.any_eq_true, Option.ne_none_iff_exists']
  refine exists_congr fun expiry => ?_
  rw [get?_cleanupExpiredLeases, decide_eq_true_eq]

theorem holds_eq_false_iff (holderId : String) (now : Rat) :
    s.holds holderId now = false ↔ (s.cleanupExpiredLeases now).holders.get? holderId = none := by
  rw [← Bool.not_eq_true, holds_iff, not_not]

theorem Bounded.le_activePermits_iff (h : s.Bounded) (now : Rat) :
    s.totalPermits ≤ s.activePermits now ↔
      s.holders.items.length = s.totalPermits ∧ ∀ expiry ∈ s.holders.values, now < expiry := by
  have hlength : s.holders.values.length = s.holders.items.length := List.length_map _
  have hle := s.activePermits_le_length now
  have hall : s.activePermits now = s.holders.values.length ↔ ∀ expiry ∈ s.holders.values, now < expiry := by
    simp [activePermits, List.countP_eq_length]
  rw [← hall, hlength]
  have hbounded : s.holders.items.length ≤ s.totalPermits := h
  omega

theorem activePermits_cleanupExpiredLeases (now : Rat) :
    (s.cleanupExpiredLeases now).activePermits now = s.activePermits now := by
  rw [activePermits_eq_length, activePermits_eq_length]
  change (List.filter _ (List.filter _ _)).length = _
  rw [List.filter_filter]
  simp only [Bool.and_self]
  rfl

theorem activePermits_renew (leaseTtl : Rat) (hholds : (s.cleanupExpiredLeases now).holders.get? holderId ≠ none) :
    ((s.cleanupExpiredLeases now).letIn holderId leaseTtl now).activePermits now + 1 =
      s.activePermits now + if 0 < leaseTtl then 1 else 0 := by
  obtain ⟨expiry, hexpiry⟩ := Option.ne_none_iff_exists'.mp hholds
  have hunexpired := (get?_cleanupExpiredLeases.mp hexpiry).2
  have hcount := (s.cleanupExpiredLeases now).holders.countP_values_insert (fun expiry => decide (now < expiry))
    holderId (now + leaseTtl)
  have hactive := s.activePermits_cleanupExpiredLeases now
  have hnew : [now + leaseTtl].countP (fun expiry => decide (now < expiry)) =
      if 0 < leaseTtl then 1 else 0 := by
    simp [List.countP_cons]
  rw [hexpiry, hnew] at hcount
  simp only [Option.toList_some, List.countP_cons, List.countP_nil, hunexpired, decide_true, if_true] at hcount
  unfold activePermits at hactive ⊢
  dsimp only [letIn]
  omega

theorem fair_iff_busy {event : SemaphoreEvent} (hnow : finished? event = some now)
    (horder : ∀ j, s.Admits late event j → s.renews event = false →
      ∀ i < j, (s.step late event).pending i = false) :
    s.Fair late event ↔ (s.step late event).Busy now := by
  constructor
  · exact fun hfair => hfair.1 now hnow
  · intro hbusy
    refine ⟨fun now' hnow' => ?_, horder⟩
    rwa [← Option.some_inj.mp (hnow.symm.trans hnow')]

theorem fair_iff_busy_of_same {event : SemaphoreEvent} (hnow : finished? event = some now)
    (hsame : ∀ j, (s.step late event).admitted j = true → s.admitted j = true) :
    s.Fair late event ↔ (s.step late event).Busy now := by
  refine fair_iff_busy hnow fun j hadmits => ?_
  exact absurd (hadmits.1.symm.trans (hsame j hadmits.2)) Bool.false_ne_true

theorem Queued.grant_fair_iff (h : s.Queued) {ttlSeconds : Option Rat} (hnot : s.holds holderId now = false)
    (heq : s.acquire holderId ttlSeconds now =
      (s.cleanupExpiredLeases now).letIn holderId (s.leaseTtl ttlSeconds) now) :
    s.Fair late (.acquire holderId ttlSeconds now) ↔ s.waiting = [] := by
  constructor
  · intro hfair
    have hadmits : s.Admits late (.acquire holderId ttlSeconds now) s.calls.length := by
      refine ⟨admitted_length, ?_⟩
      rw [DistributedSemaphore.step, heq, admitted_letIn]
      exact if_pos rfl
    refine h.waiting_eq_nil_iff.mpr fun i => ?_
    by_contra hpending
    have hlt := lt_length_of_pending (Bool.of_not_eq_false hpending)
    have hafter := hfair.2 s.calls.length hadmits hnot i hlt
    rw [DistributedSemaphore.step, heq, pending_letIn, if_neg (Nat.ne_of_lt hlt)] at hafter
    exact hpending hafter
  · intro hnobody
    refine (fair_iff_busy rfl fun j _ _ i _ => ?_).mpr (Or.inl ?_)
    · rw [DistributedSemaphore.step, heq, pending_letIn]
      split_ifs
      · rfl
      · exact h.waiting_eq_nil_iff.mp hnobody i
    · rwa [DistributedSemaphore.step, heq, h.waiting_letIn]

theorem acquire_fair_iff (h : s.Queued) (holderId : String) (ttlSeconds : Option Rat) (now : Rat) :
    s.Fair late (.acquire holderId ttlSeconds now) ↔ s.NoSlack (.acquire holderId ttlSeconds now) := by
  have hlength := s.activePermits_eq_length now
  have hbounded : (s.cleanupExpiredLeases now).holders.items.length ≤ s.totalPermits :=
    h.bounded.cleanupExpiredLeases now
  rcases acquire_cases s holderId ttlSeconds now with ⟨hholds | ⟨hnone, hfree⟩, heq⟩ | ⟨hnone, hfull, heq⟩
  · -- a renewal
    have hrenews : s.holds holderId now = true := (holds_iff holderId now).mpr hholds
    have hactive := activePermits_renew (s.leaseTtl ttlSeconds) hholds
    have hfair : s.Fair late (.acquire holderId ttlSeconds now) ↔
        (s.acquire holderId ttlSeconds now).Busy now :=
      fair_iff_busy rfl fun j _ hnot => absurd (hrenews.symm.trans hnot) Bool.false_ne_true.symm
    rw [hfair, heq, Busy, h.waiting_letIn, NoSlack]
    refine or_congr Iff.rfl ?_
    change s.totalPermits ≤ _ ↔ _
    split_ifs at hactive with httl
    · simp only [hrenews, httl, true_imp_iff, and_true]
      omega
    · simp only [hrenews, httl, true_imp_iff, and_false, iff_false]
      omega
  · -- a permit is granted
    have hnot : s.holds holderId now = false := (holds_eq_false_iff holderId now).mpr hnone
    change (s.cleanupExpiredLeases now).holders.items.length < s.totalPermits at hfree
    rw [h.grant_fair_iff hnot heq, NoSlack]
    exact ⟨Or.inl, fun hslack => hslack.resolve_right (by omega)⟩
  · -- the call waits, and all permits are leased
    have hnot : s.holds holderId now = false := (holds_eq_false_iff holderId now).mpr hnone
    change s.totalPermits ≤ (s.cleanupExpiredLeases now).holders.items.length at hfull
    have hactive := s.activePermits_cleanupExpiredLeases now
    refine iff_of_true ?_ (Or.inr ⟨by omega, fun hholds => absurd (hnot.symm.trans hholds) Bool.false_ne_true⟩)
    refine (fair_iff_busy_of_same rfl fun j hadmitted => ?_).mpr (Or.inr ?_)
    · rw [step, heq, admitted_enqueue] at hadmitted
      split_ifs at hadmitted
      exact hadmitted
    · rw [step, heq]
      change s.totalPermits ≤ (s.cleanupExpiredLeases now).activePermits now
      omega

theorem forall_mem_withdraw_iff (holderId : String) (now later : Rat) :
    (∀ expiry ∈ ((s.cleanupExpiredLeases now).withdraw holderId).holders.values, later < expiry) ↔
      ∀ lease ∈ s.holders.items, now < lease.2 → lease.1 ≠ holderId → later < lease.2 := by
  simp only [withdraw, cleanupExpiredLeases, Dict.erase, Dict.filterValues, Dict.values, List.mem_map,
    List.mem_filter, decide_eq_true_eq, forall_exists_index, and_imp]
  constructor
  · exact fun hall lease hmem hunexpired hother => hall _ lease hmem hunexpired hother rfl
  · rintro hall _ lease hmem hunexpired hother rfl
    exact hall lease hmem hunexpired hother

theorem get?_withdraw_eq_none_iff (holderId other : String) (now : Rat) :
    ((s.cleanupExpiredLeases now).withdraw holderId).holders.get? other = none ↔
      other = holderId ∨ s.holds other now = false := by
  rw [withdraw, Dict.get?_erase, holds_eq_false_iff]
  split_ifs with hsame
  · simp [hsame]
  · simp [hsame]

theorem le_activePermits_handOver_iff {n : Nat}
    (hfree : ((s.cleanupExpiredLeases now).withdraw holderId).holders.items.length < n) (later : Rat) (i : Nat)
    (call : AcquireCall) (queue : List Nat) :
    n ≤ (((s.cleanupExpiredLeases now).withdraw holderId).handOver later i call queue).activePermits later ↔
      ((s.cleanupExpiredLeases now).withdraw holderId).holders.items.length + 1 = n ∧
        (∀ lease ∈ s.holders.items, now < lease.2 → lease.1 ≠ holderId → later < lease.2) ∧
        (call.holderId = holderId ∨ s.holds call.holderId now = false) ∧ 0 < call.leaseTtl := by
  rw [← forall_mem_withdraw_iff, ← get?_withdraw_eq_none_iff]
  refine (Dict.le_countP_values_insert_iff hfree _ _ _).trans ?_
  simp only [decide_eq_true_eq, lt_add_iff_pos_right]

theorem Queued.handOver_fair_iff (h : s.Queued) {later : Rat} {i : Nat}
    {call : AcquireCall} {rest : List Nat} (hbehind : ∀ k ∈ rest, i < k)
    (hwaiting : s.waiting = i :: rest.filter s.pending) (hcall : s.calls[i]? = some call)
    (heq : (s.release holderId now later).1 =
      ((s.cleanupExpiredLeases now).withdraw holderId).handOver later i call rest) :
    s.Fair late (.release holderId now later) ↔ (s.release holderId now later).1.Busy later := by
  refine fair_iff_busy rfl fun j hadmits _ k hk => ?_
  obtain ⟨hbefore, hafter⟩ := hadmits
  rw [DistributedSemaphore.step, heq, admitted_handOver holderId now later hcall] at hafter
  rw [DistributedSemaphore.step, heq, pending_handOver holderId now later hcall]
  split_ifs at hafter with hij
  · subst hij
    rw [if_neg (Nat.ne_of_gt hk)]
    by_contra hpending
    have hmem : k ∈ s.waiting := (h.mem_waiting_iff k).mpr (Bool.of_not_eq_false hpending)
    rw [hwaiting, List.mem_cons] at hmem
    have hlater := hbehind k (List.mem_filter.mp (hmem.resolve_left (Nat.ne_of_lt hk))).1
    omega
  · exact absurd (hbefore.symm.trans hafter) Bool.false_ne_true

theorem release_fair_iff (h : s.Queued) (holderId : String) (now later : Rat) :
    s.Fair late (.release holderId now later) ↔ s.NoSlack (.release holderId now later) := by
  have hlength := s.activePermits_eq_length now
  have hclean := h.bounded.cleanupExpiredLeases now
  have hbounded : (s.cleanupExpiredLeases now).holders.items.length ≤ s.totalPermits := hclean
  rcases release_cases h.bounded holderId now later with ⟨hnone, heq⟩ | ⟨hholds, hnobody, heq⟩ |
    ⟨hholds, i, call, rest, hwaiting, hsub, hcall, hfuture, heq⟩
  · -- the holder has no lease
    have hnot : s.holds holderId now = false := (holds_eq_false_iff holderId now).mpr hnone
    have hkept : (s.cleanupExpiredLeases now).withdraw holderId = s.cleanupExpiredLeases now := by
      rw [withdraw, Dict.erase_eq_self hnone]
    have hfair : s.Fair late (.release holderId now later) ↔ (s.release holderId now later).1.Busy later := by
      refine fair_iff_busy_of_same rfl fun j hadmitted => ?_
      rw [step, heq] at hadmitted
      exact hadmitted
    rw [hfair, heq, Busy, NoSlack, hclean.le_activePermits_iff, ← hkept, forall_mem_withdraw_iff, hkept,
      hlength]
    refine or_congr Iff.rfl ?_
    simp [hnot, cleanupExpiredLeases]
  · -- nobody waits
    refine iff_of_true ((fair_iff_busy_of_same rfl fun j hadmitted => ?_).mpr (Or.inl ?_)) (Or.inl hnobody)
    · rw [step, heq] at hadmitted
      exact hadmitted
    · rw [step, heq]
      rfl
  · -- the first call that waits gets the permit
    have hlast := length_withdraw hholds
    have hfree : ((s.cleanupExpiredLeases now).withdraw holderId).holders.items.length < s.totalPermits := by
      omega
    have hbehind : ∀ k ∈ rest, i < k := (List.pairwise_cons.mp (h.increasing.sublist hsub)).1
    have hfair : s.Fair late (.release holderId now later) ↔ (s.release holderId now later).1.Busy later :=
      h.handOver_fair_iff hbehind hwaiting hcall heq
    have hrest : (s.release holderId now later).1.waiting = rest.filter s.pending := by
      rw [heq]
      refine List.filter_congr fun k hk => ?_
      rw [pending_handOver holderId now later hcall, if_neg (Nat.ne_of_lt (hbehind k hk))]
    have htrue : s.holds holderId now = true := (holds_iff holderId now).mpr hholds
    have hnext : s.next? = some call := by
      rwa [next?, waiting, hwaiting]
    have hcount : ((s.cleanupExpiredLeases now).withdraw holderId).holders.items.length + 1 = s.totalPermits ↔
        s.activePermits now = s.totalPermits := by omega
    have htotal : (s.release holderId now later).1.totalPermits = s.totalPermits :=
      totalPermits_release holderId now later
    have hwaits : s.waiting = i :: rest.filter s.pending := hwaiting
    rw [hfair, Busy, hrest, htotal, heq, le_activePermits_handOver_iff hfree, hcount, NoSlack, hwaits, hnext]
    simp [htrue, and_comm]

theorem fair_iff_noSlack (h : s.Queued) (event : SemaphoreEvent) : s.Fair late event ↔ s.NoSlack event := by
  have htimeless (hnow : finished? event = none) (hsame : ∀ j, (s.step late event).admitted j = s.admitted j) :
      s.Fair late event := by
    refine ⟨fun now hmem => ?_, fun j hadmits => ?_⟩
    · rw [hnow] at hmem
      cases hmem
    · exact absurd (hadmits.1.symm.trans ((hsame j).symm.trans hadmits.2)) Bool.false_ne_true
  cases event with
  | acquire holderId ttlSeconds now => exact acquire_fair_iff h holderId ttlSeconds now
  | release holderId now later => exact release_fair_iff h holderId now later
  | cleanupExpiredLeases now => exact iff_of_true (htimeless rfl fun _ => rfl) trivial
  | expire i => exact iff_of_true (htimeless rfl (admitted_expire i)) trivial
  | resume i => exact iff_of_true (htimeless rfl (admitted_resume i)) trivial
  | abandon i => exact iff_of_true (htimeless rfl (admitted_modify cancelFuture_admitted i)) trivial

/-- **No idle permit, first come first served.** In a run nobody waits beside a free permit behind an `acquire`
or a `release`, and nobody is overtaken, exactly when every step finds no slack. -/
theorem fair_run_iff (late : Bool) {totalPermits : Int} {defaultTtlSeconds : Rat}
    (hnew : new totalPermits defaultTtlSeconds = .ok s) (events : List SemaphoreEvent) :
    Along (fun s => s.step late) (fun s => s.Fair late) s events ↔
      Along (fun s => s.step late) (fun s => s.NoSlack) s events := by
  have hqueued : s.Queued := Queued.new hnew
  constructor
  · exact Along.of_invariant (I := Queued)
      (fun s event hs hfair => ⟨(fair_iff_noSlack hs event).mp hfair, hs.step event⟩) hqueued
  · exact Along.of_invariant (I := Queued)
      (fun s event hs hslack => ⟨(fair_iff_noSlack hs event).mpr hslack, hs.step event⟩) hqueued

/-- Two calls that wait are served in turn while the leases last. -/
theorem fair_run_two_waiters :
    let s : DistributedSemaphore := ⟨1, 30, .empty, [], []⟩
    let events : List SemaphoreEvent :=
      [.acquire "a" none 0, .acquire "b" none 1, .acquire "c" none 2, .release "a" 3 4, .release "b" 5 6]
    new 1 30 = .ok s ∧ (s.after true events).admitted 2 = true ∧
      Along (fun s => s.step true) (fun s => s.Fair true) s events := by
  intro s events
  have hnew : new 1 30 = .ok s := rfl
  exact ⟨hnew, by decide +kernel, (fair_run_iff true hnew events).mpr (by decide +kernel)⟩

/-- A holder whose lease is over releases it in vain: the call that waits is not woken, although the permit is
free, and the next call takes the permit. -/
theorem expired_release_wakes_nobody :
    let s : DistributedSemaphore := ⟨1, 30, .empty, [], []⟩
    let events : List SemaphoreEvent := [.acquire "a" (some 1) 0, .acquire "b" none 0]
    let released := s.after true (events ++ [.release "a" 2 2])
    new 1 30 = .ok s ∧ ((s.after true events).release "a" 2 2).2 = false ∧
      released.waiting = [1] ∧ released.activePermits 2 = 0 ∧
      released.Admits true (.acquire "c" none 3) 2 ∧ released.renews (.acquire "c" none 3) = false ∧
      (released.step true (.acquire "c" none 3)).pending 1 = true ∧
      ¬ Along (fun s => s.step true) (fun s => s.Fair true) s (events ++ [.release "a" 2 2]) := by
  intro s events released
  refine ⟨rfl, by decide +kernel, by decide +kernel, by decide +kernel, by decide +kernel, by decide +kernel,
    by decide +kernel, fun hfair => ?_⟩
  have hidle : ¬ released.Busy 2 := by decide +kernel
  exact hidle (hfair.last.1 2 rfl)

end DistributedSemaphore

end MeshWeaver
