import MeshWeaver.Node.Routing

/-!
# When the contacts of a bucket were seen

`KBucket.add` stamps a contact with the time and puts it at the tail. A bucket that is full stamps newcomers
too, but keeps them as candidates, and `KBucket.remove` appends the oldest candidate to the contacts with the
stamp that it has. So the contacts are in the order in which they were last seen as long as no removal promotes
a candidate that is older than a contact that stays.
-/

namespace MeshWeaver

open Lib
open MeshPeers (exampleId)

structure SeenInfo extends NodeInfo where
  lastSeen : Rat

structure SeenBucket where
  contacts : List SeenInfo
  replacementCache : List SeenInfo
  lastUpdated : Rat

inductive BucketCall where
  | add (info : NodeInfo) (now : Rat)
  | remove (nodeId : NodeID)

def BucketCall.now? : BucketCall → Option Rat
  | .add _ now => some now
  | .remove _ => none

namespace SeenBucket

section Definitions

variable (k : Nat) (bucket : SeenBucket)

def new (now : Rat) : SeenBucket := ⟨[], [], now⟩

def add (info : NodeInfo) (now : Rat) : SeenBucket × Bool :=
  let seen : SeenInfo := { info with lastSeen := now }
  let same (contact : SeenInfo) : Bool := contact.nodeId = info.nodeId
  if bucket.contacts.any same then
    ({ bucket with contacts := bucket.contacts.eraseP same ++ [seen], lastUpdated := now }, true)
  else if bucket.contacts.length < k then
    ({ bucket with contacts := bucket.contacts ++ [seen], lastUpdated := now }, true)
  else
    let cache := bucket.replacementCache.eraseP same ++ [seen]
    ({ bucket with
        replacementCache := if cache.length > k then cache.drop 1 else cache
        lastUpdated := now }, false)

def remove (nodeId : NodeID) : SeenBucket × Option SeenInfo :=
  let same (contact : SeenInfo) : Bool := contact.nodeId = nodeId
  let removedContact := bucket.contacts.find? same
  let contacts := bucket.contacts.eraseP same
  match bucket.replacementCache.filter fun candidate => !same candidate with
  | [] => ({ bucket with contacts, replacementCache := [] }, removedContact)
  | promoted :: cache =>
    if removedContact.isSome ∧ contacts.length < k then
      ({ bucket with contacts := contacts ++ [promoted], replacementCache := cache }, removedContact)
    else ({ bucket with contacts, replacementCache := promoted :: cache }, removedContact)

def step : BucketCall → SeenBucket
  | .add info now => (bucket.add k info now).1
  | .remove nodeId => (bucket.remove k nodeId).1

def after (calls : List BucketCall) : SeenBucket := run (step k) bucket calls

/-- The bucket without its times. -/
def forget : KBucket :=
  ⟨bucket.contacts.map SeenInfo.toNodeInfo, bucket.replacementCache.map SeenInfo.toNodeInfo⟩

def InSeenOrder : Prop := bucket.contacts.Pairwise fun a b => a.lastSeen ≤ b.lastSeen
deriving Decidable

/-- The candidate that takes the place of a contact when this one is removed. -/
def successor? (nodeId : NodeID) : Option SeenInfo :=
  bucket.replacementCache.find? fun candidate => candidate.nodeId ≠ nodeId

/-- A contact that is removed leaves only contacts that were not seen later than its successor. -/
def PromotesNewest : BucketCall → Prop
  | .add _ _ => True
  | .remove nodeId => (∃ contact ∈ bucket.contacts, contact.nodeId = nodeId) →
      ∀ promoted ∈ bucket.successor? nodeId, ∀ contact ∈ bucket.contacts, contact.nodeId ≠ nodeId →
        contact.lastSeen ≤ promoted.lastSeen

instance (c : BucketCall) : Decidable (bucket.PromotesNewest c) :=
  match c with
  | .add _ _ => .isTrue trivial
  | .remove _ => inferInstanceAs (Decidable (_ → _))

end Definitions

variable {k : Nat} {bucket : SeenBucket}

/-! ### The bucket without its times -/

theorem forget_add (info : NodeInfo) (now : Rat) : (bucket.add k info now).1.forget = bucket.forget.add k info := by
  unfold SeenBucket.add KBucket.add forget
  simp only [List.any_map, List.eraseP_map, List.length_map, Function.comp_def]
  split_ifs with hany hroom hlong hlong' hlong'
  · simp
  · simp
  · simp
  · simp at hlong hlong'
    omega
  · simp at hlong hlong'
    omega
  · simp

theorem forget_remove (nodeId : NodeID) : (bucket.remove k nodeId).1.forget = (bucket.forget.remove k nodeId).1 := by
  unfold SeenBucket.remove KBucket.remove forget
  simp only [List.find?_map, List.eraseP_map, List.filter_map, Function.comp_def, List.length_map]
  cases bucket.replacementCache.filter fun candidate => !decide (candidate.nodeId = nodeId) with
  | nil => rfl
  | cons promoted cache =>
    simp only [List.map_cons, Option.isSome_map]
    split_ifs <;> simp

/-! ### The order of the stamps -/

/-- What is true of a bucket whose contacts are in order. -/
structure Invariant (k : Nat) (bucket : SeenBucket) : Prop where
  forgotten : bucket.forget.Invariant k
  seen : ∀ contact ∈ bucket.contacts ++ bucket.replacementCache, contact.lastSeen ≤ bucket.lastUpdated
  ordered : bucket.InSeenOrder

theorem invariant_new (k : Nat) (now : Rat) : (new now).Invariant k where
  forgotten := KBucket.invariant_empty k
  seen _ h := absurd h List.not_mem_nil
  ordered := List.Pairwise.nil

theorem lastUpdated_step (k : Nat) (bucket : SeenBucket) (c : BucketCall) :
    (bucket.step k c).lastUpdated = c.now?.getD bucket.lastUpdated := by
  cases c with
  | add info now =>
    rw [step, SeenBucket.add]
    split_ifs <;> rfl
  | remove nodeId =>
    rw [step, SeenBucket.remove]
    split
    · rfl
    · split_ifs <;> rfl

theorem ordered_append_iff {contacts : List SeenInfo} {last : SeenInfo}
    (h : contacts.Pairwise fun a b => a.lastSeen ≤ b.lastSeen) :
    (contacts ++ [last]).Pairwise (fun a b => a.lastSeen ≤ b.lastSeen) ↔
      ∀ contact ∈ contacts, contact.lastSeen ≤ last.lastSeen := by
  rw [List.pairwise_append]
  simp [h]

theorem mem_add {info : NodeInfo} {now : Rat} {contact : SeenInfo}
    (h : contact ∈ (bucket.add k info now).1.contacts ++ (bucket.add k info now).1.replacementCache) :
    contact ∈ bucket.contacts ++ bucket.replacementCache ∨ contact = { info with lastSeen := now } := by
  have hcases : ∀ {infos : List SeenInfo}, contact ∈ infos.eraseP (fun contact =>
      decide (contact.nodeId = info.nodeId)) ++ [{ info with lastSeen := now }] →
      contact ∈ infos ∨ contact = { info with lastSeen := now } := by
    intro infos hmem
    rw [List.mem_append, List.mem_singleton] at hmem
    exact hmem.imp_left List.mem_of_mem_eraseP
  rw [List.mem_append] at h ⊢
  unfold SeenBucket.add at h
  dsimp only at h
  split_ifs at h with hany hroom hlong
  · exact h.elim (fun hmem => (hcases hmem).imp_left Or.inl) fun hmem => Or.inl (Or.inr hmem)
  · rw [List.mem_append, List.mem_singleton] at h
    tauto
  · exact h.elim (fun hmem => Or.inl (Or.inl hmem)) fun hmem =>
      (hcases (List.mem_of_mem_drop hmem)).imp_left Or.inr
  · exact h.elim (fun hmem => Or.inl (Or.inl hmem)) fun hmem => (hcases hmem).imp_left Or.inr

theorem Invariant.add (h : bucket.Invariant k) (info : NodeInfo) {now : Rat} (hnow : bucket.lastUpdated ≤ now) :
    (bucket.add k info now).1.Invariant k := by
  have hcontacts : ∀ contact ∈ bucket.contacts, contact.lastSeen ≤ now := fun contact hmem =>
    (h.seen contact (List.mem_append_left _ hmem)).trans hnow
  have hupdated : (bucket.add k info now).1.lastUpdated = now := lastUpdated_step k bucket (.add info now)
  refine ⟨?_, ?_, ?_⟩
  · rw [forget_add]
    exact h.forgotten.add info
  · intro contact hmem
    rw [hupdated]
    rcases mem_add hmem with hold | rfl
    · exact (h.seen contact hold).trans hnow
    · exact le_rfl
  · unfold SeenBucket.add InSeenOrder
    dsimp only
    split_ifs with hany hroom
    · refine (ordered_append_iff (h.ordered.sublist List.eraseP_sublist)).mpr fun contact hmem => ?_
      exact hcontacts contact (List.mem_of_mem_eraseP hmem)
    · exact (ordered_append_iff h.ordered).mpr hcontacts
    all_goals exact h.ordered

theorem eraseP_eq_filter {contacts : List SeenInfo} (h : (contacts.map fun contact => contact.nodeId).Nodup)
    (nodeId : NodeID) :
    contacts.eraseP (fun contact => decide (contact.nodeId = nodeId)) =
      contacts.filter fun contact => !decide (contact.nodeId = nodeId) := by
  induction contacts with
  | nil => rfl
  | cons contact contacts ih =>
    rw [List.map_cons, List.nodup_cons] at h
    by_cases hsame : contact.nodeId = nodeId
    · have hothers : ∀ other ∈ contacts, other.nodeId ≠ nodeId := fun other hother hid =>
        h.1 (List.mem_map.mpr ⟨other, hother, hid.trans hsame.symm⟩)
      rw [List.eraseP_cons_of_pos (by simp [hsame]), List.filter_cons_of_neg (by simp [hsame])]
      exact (List.filter_eq_self.mpr fun other hother => by simp [hothers other hother]).symm
    · rw [List.eraseP_cons_of_neg (by simp [hsame]), List.filter_cons_of_pos (by simp [hsame]), ih h.2]

theorem Invariant.contacts_remove (h : bucket.Invariant k) (nodeId : NodeID) :
    (bucket.remove k nodeId).1.contacts =
      (bucket.contacts.filter fun contact => !decide (contact.nodeId = nodeId)) ++
        if ∃ contact ∈ bucket.contacts, contact.nodeId = nodeId then (bucket.successor? nodeId).toList else [] := by
  have hnodup : (bucket.contacts.map fun contact => contact.nodeId).Nodup := by
    have hids := h.forgotten.nodup
    rw [KBucket.ids, forget, List.map_append, List.map_map] at hids
    exact hids.of_append_left
  have hlength : bucket.contacts.length ≤ k := by
    have hle := h.forgotten.contacts_le
    rwa [forget, List.length_map] at hle
  have hsuccessor : bucket.successor? nodeId =
      (bucket.replacementCache.filter fun candidate => !decide (candidate.nodeId = nodeId)).head? := by
    rw [List.head?_filter, successor?]
    simp only [ne_eq, decide_not]
  unfold SeenBucket.remove
  dsimp only
  rw [eraseP_eq_filter hnodup, hsuccessor]
  cases bucket.replacementCache.filter fun candidate => !decide (candidate.nodeId = nodeId) with
  | nil => simp
  | cons promoted cache =>
    dsimp only
    by_cases hfound : ∃ contact ∈ bucket.contacts, contact.nodeId = nodeId
    · have hshorter : (bucket.contacts.filter fun contact => !decide (contact.nodeId = nodeId)).length <
          bucket.contacts.length := List.length_filter_lt_length_iff_exists.mpr (by simpa using hfound)
      rw [if_pos ⟨by simpa using hfound, by omega⟩, if_pos hfound]
      rfl
    · rw [if_neg fun hboth => hfound (by simpa using hboth.1), if_neg hfound, List.append_nil]

theorem mem_remove {nodeId : NodeID} {contact : SeenInfo}
    (h : contact ∈ (bucket.remove k nodeId).1.contacts ++ (bucket.remove k nodeId).1.replacementCache) :
    contact ∈ bucket.contacts ++ bucket.replacementCache := by
  have hsublist := (List.eraseP_sublist (p := fun contact : SeenInfo => decide (contact.nodeId = nodeId))
    (l := bucket.contacts)).append (List.filter_sublist (p := fun candidate : SeenInfo =>
      !decide (candidate.nodeId = nodeId)) (l := bucket.replacementCache))
  refine hsublist.subset ?_
  unfold SeenBucket.remove at h
  dsimp only at h
  cases hcache : bucket.replacementCache.filter fun candidate => !decide (candidate.nodeId = nodeId) with
  | nil => rwa [hcache] at h
  | cons promoted cache =>
    rw [hcache] at h
    split_ifs at h
    · rwa [List.append_assoc] at h
    · exact h

/-- **A step keeps the order** exactly if a successor is not older than the contacts that stay. -/
theorem Invariant.step (h : bucket.Invariant k) {c : BucketCall} (hclock : ∀ now ∈ c.now?, bucket.lastUpdated ≤ now) :
    ((bucket.step k c).InSeenOrder ↔ bucket.PromotesNewest c) ∧
      ((bucket.step k c).InSeenOrder → (bucket.step k c).Invariant k) := by
  cases c with
  | add info now =>
    have hnext := h.add info (hclock now rfl)
    exact ⟨iff_of_true hnext.ordered trivial, fun _ => hnext⟩
  | remove nodeId =>
    have hstays := h.ordered.sublist
      (List.filter_sublist (p := fun contact : SeenInfo => !decide (contact.nodeId = nodeId)))
    refine ⟨?_, fun hordered => ⟨?_, ?_, hordered⟩⟩
    · rw [SeenBucket.step, InSeenOrder, h.contacts_remove, PromotesNewest]
      by_cases hfound : ∃ contact ∈ bucket.contacts, contact.nodeId = nodeId
      · rw [if_pos hfound]
        cases bucket.successor? nodeId with
        | none => simpa using hstays
        | some promoted =>
          rw [Option.toList_some, ordered_append_iff hstays]
          simp [hfound]
      · rw [if_neg hfound, List.append_nil]
        exact iff_of_true hstays fun hremoved => absurd hremoved hfound
    · rw [SeenBucket.step, forget_remove]
      exact h.forgotten.remove nodeId
    · intro contact hmem
      rw [lastUpdated_step]
      exact h.seen contact (mem_remove hmem)

theorem along_clock {calls : List BucketCall}
    (h : (bucket.lastUpdated :: calls.filterMap BucketCall.now?).Pairwise (· ≤ ·)) :
    Along (step k) (fun bucket c => ∀ now ∈ c.now?, bucket.lastUpdated ≤ now) bucket calls := by
  induction calls generalizing bucket with
  | nil => trivial
  | cons c calls ih =>
    have hupdated := lastUpdated_step k bucket c
    cases hnow : c.now? with
    | none =>
      rw [List.filterMap_cons_none hnow] at h
      rw [hnow] at hupdated
      refine ⟨fun now hread => ?_, ih (hupdated ▸ h)⟩
      rw [hnow] at hread
      cases hread
    | some now =>
      rw [List.filterMap_cons_some hnow, List.pairwise_cons] at h
      rw [hnow] at hupdated
      refine ⟨fun now' hread => h.1 now' ?_, ih (hupdated ▸ h.2)⟩
      rw [hnow, Option.mem_some_iff] at hread
      exact hread ▸ List.mem_cons_self

/-- **The order of a bucket.** After every call of a run the contacts are sorted by the time at which they were
last seen, if and only if no removal promotes a candidate that is older than a contact that stays. -/
theorem inSeenOrder_iff (k : Nat) (start : Rat) (calls : List BucketCall)
    (hclock : (start :: calls.filterMap BucketCall.now?).Pairwise (· ≤ ·)) :
    (∀ n, ((new start).after k (calls.take n)).InSeenOrder) ↔
      Along (step k) PromotesNewest (new start) calls := by
  have hnew := invariant_new k start
  refine Lib.forall_run_take_iff.trans ((and_iff_right hnew.ordered).trans ?_)
  exact Along.congr_of_invariant (fun bucket c h => h.step) hnew (along_clock hclock)

def refreshedBeforePromotion : List BucketCall :=
  [.add ⟨exampleId 1, "a", 1, none⟩ 1, .add ⟨exampleId 2, "b", 1, none⟩ 2, .add ⟨exampleId 3, "c", 1, none⟩ 3,
    .add ⟨exampleId 1, "a", 1, none⟩ 4, .remove (exampleId 2)]

/-- Without the refresh the candidate is newer than the contact that stays. -/
theorem inSeenOrder_promoted :
    let calls := refreshedBeforePromotion.eraseIdx 3
    ((new 0).after 2 calls).contacts.map (fun contact => contact.lastSeen) = [1, 3] ∧
      ∀ n, ((new 0).after 2 (calls.take n)).InSeenOrder := by
  intro calls
  refine ⟨by decide +kernel, ?_⟩
  exact (inSeenOrder_iff 2 0 calls (by decide +kernel)).mpr (by decide +kernel)

/-- **The promoted candidate was seen before the contact in front of it.** -/
theorem not_inSeenOrder_promoted :
    (0 :: refreshedBeforePromotion.filterMap BucketCall.now?).Pairwise (· ≤ ·) ∧
      ((new 0).after 2 refreshedBeforePromotion).contacts.map (fun contact => contact.lastSeen) = [4, 3] ∧
      ¬ ((new 0).after 2 refreshedBeforePromotion).InSeenOrder := by
  decide +kernel

end SeenBucket

end MeshWeaver
