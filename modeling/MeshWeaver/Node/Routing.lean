import Mathlib.Data.Nat.Bitwise
import Mathlib.Data.List.Nodup
import MeshWeaver.Lib.Nearest
import MeshWeaver.Node.Peers

/-!
# The routing table

A contact is kept in the bucket of the highest bit in which its id differs from the local one. A full bucket keeps
newcomers as candidates, and the oldest of them takes the place of a contact that is removed. So a bucket has
candidates only while it is full, no id is in the table twice, and `find_closest_nodes` is the sorted list of all
contacts, cut off.

`NodeID` of a text asks for 40 characters and lets `bytes.fromhex` skip the blanks between bytes, so an id can have
fewer than 20 bytes. Two ids of different lengths can be the same number: they are at distance 0 without being
equal. What is said here of distances is true of ids of 20 bytes; that no id is in the table twice is true of all.
-/

namespace MeshWeaver

open Lib
open MeshPeers (exampleId)

/-! ### Ids -/

namespace NodeID

/-- `ID_BYTE_LENGTH` bytes, which `NodeID` checks of bytes and of numbers, but not of texts. -/
def IsId (id : NodeID) : Prop := id.bytes.length = 20
deriving Decidable

theorem foldl_bytes_lt (bytes : List UInt8) (n : Nat) :
    bytes.foldl (fun n byte => n * 256 + byte.toNat) n < (n + 1) * 256 ^ bytes.length := by
  induction bytes generalizing n with
  | nil => simp
  | cons byte bytes ih =>
    have hbyte : byte.toNat < 256 := byte.toNat_lt
    calc (byte :: bytes).foldl (fun n byte => n * 256 + byte.toNat) n
        < (n * 256 + byte.toNat + 1) * 256 ^ bytes.length := ih _
      _ ≤ (n + 1) * 256 * 256 ^ bytes.length := Nat.mul_le_mul_right _ (by omega)
      _ = (n + 1) * 256 ^ (byte :: bytes).length := by rw [List.length_cons, Nat.pow_succ']; ring

theorem foldl_bytes_inj {xs ys : List UInt8} (hlength : xs.length = ys.length) {n m : Nat}
    (h : xs.foldl (fun n byte => n * 256 + byte.toNat) n = ys.foldl (fun n byte => n * 256 + byte.toNat) m) :
    n = m ∧ xs = ys := by
  induction xs generalizing ys n m with
  | nil =>
    cases List.length_eq_zero_iff.mp hlength.symm
    exact ⟨h, rfl⟩
  | cons x xs ih =>
    cases ys with
    | nil => cases hlength
    | cons y ys =>
      obtain ⟨hhead, rfl⟩ := ih (Nat.succ.inj hlength) h
      dsimp only at hhead
      have hx : x.toNat < 256 := x.toNat_lt
      have hy : y.toNat < 256 := y.toNat_lt
      have hbyte : x.toNat = y.toNat := by omega
      exact ⟨by omega, by rw [UInt8.toNat_inj.mp hbyte]⟩

variable {id other target : NodeID}

section

variable (h : id.IsId)
include h

theorem IsId.int_lt : id.int < 2 ^ 160 := by
  have hlt := foldl_bytes_lt id.bytes 0
  rw [h] at hlt
  exact hlt

section

variable (hother : other.IsId)
include hother

theorem IsId.int_inj (hint : id.int = other.int) : id = other := by
  obtain ⟨-, hbytes⟩ := foldl_bytes_inj (h.trans hother.symm) hint
  exact congrArg NodeID.mk hbytes

theorem IsId.distance_ne_zero (hne : id ≠ other) : id.distance other ≠ 0 :=
  fun hzero => hne (h.int_inj hother (Nat.xor_eq_zero_iff.mp hzero))

end

end

theorem distance_comm (id other : NodeID) : id.distance other = other.distance id := Nat.xor_comm ..

end NodeID

/-! ### Buckets -/

namespace KBucket

variable (k : Nat) (bucket : KBucket)

/-- `bucket.remove(node_id)`: the contact that was removed, if there was one; the oldest candidate takes
its place. -/
def remove (nodeId : NodeID) : KBucket × Option NodeInfo :=
  let same (contact : NodeInfo) : Bool := contact.nodeId = nodeId
  let removedContact := bucket.contacts.find? same
  let contacts := bucket.contacts.eraseP same
  match bucket.replacementCache.filter fun candidate => !same candidate with
  | [] => (⟨contacts, []⟩, removedContact)
  | promoted :: cache =>
    if removedContact.isSome ∧ contacts.length < k then (⟨contacts ++ [promoted], cache⟩, removedContact)
    else (⟨contacts, promoted :: cache⟩, removedContact)

def ids : List NodeID := (bucket.contacts ++ bucket.replacementCache).map NodeInfo.nodeId

structure Invariant : Prop where
  contacts_le : bucket.contacts.length ≤ k
  cache_le : bucket.replacementCache.length ≤ k
  nodup : bucket.ids.Nodup
  full : bucket.replacementCache ≠ [] → bucket.contacts.length = k

theorem invariant_empty : Invariant k ⟨[], []⟩ where
  contacts_le := k.zero_le
  cache_le := k.zero_le
  nodup := List.nodup_nil
  full h := absurd rfl h

variable {k bucket} {info : NodeInfo} {nodeId : NodeID}

theorem perm_eraseP_append {infos : List NodeInfo} (h : infos.any fun contact => contact.nodeId = info.nodeId) :
    ((infos.eraseP (fun contact => contact.nodeId = info.nodeId) ++ [info]).map NodeInfo.nodeId).Perm
      (infos.map NodeInfo.nodeId) := by
  obtain ⟨contact, hmem, hsame⟩ := List.any_eq_true.mp h
  obtain ⟨old, before, after, -, hold, hinfos, herase⟩ := List.exists_of_eraseP (p := fun contact =>
    decide (contact.nodeId = info.nodeId)) hmem hsame
  have hid : old.nodeId = info.nodeId := of_decide_eq_true hold
  rw [herase, hinfos, List.append_assoc]
  simp only [List.map_append, List.map_cons, List.map_nil, hid]
  exact (List.perm_append_singleton _ _).append_left _

theorem notMem_of_not_any {infos : List NodeInfo}
    (h : ¬ (infos.any fun contact => contact.nodeId = info.nodeId) = true) :
    info.nodeId ∉ infos.map NodeInfo.nodeId := by
  intro hmem
  obtain ⟨contact, hcontact, hsame⟩ := List.mem_map.mp hmem
  exact h (List.any_eq_true.mpr ⟨contact, hcontact, decide_eq_true hsame⟩)

theorem nodup_candidates (hnodup : bucket.ids.Nodup)
    (hany : ¬ (bucket.contacts.any fun contact => contact.nodeId = info.nodeId) = true) :
    let cache := bucket.replacementCache.eraseP (fun candidate => candidate.nodeId = info.nodeId) ++ [info]
    (⟨bucket.contacts, cache⟩ : KBucket).ids.Nodup ∧ cache.length ≤ bucket.replacementCache.length + 1 := by
  intro cache
  have hlength : cache.length ≤ bucket.replacementCache.length + 1 := by
    rw [List.length_append, List.length_singleton]
    exact Nat.succ_le_succ List.length_eraseP_le
  refine ⟨?_, hlength⟩
  rw [ids, List.map_append] at hnodup ⊢
  by_cases hcached : (bucket.replacementCache.any fun candidate => candidate.nodeId = info.nodeId) = true
  · exact ((perm_eraseP_append hcached).append_left _).nodup_iff.mpr hnodup
  · have herase : cache = bucket.replacementCache ++ [info] := by
      refine congrArg (· ++ [info]) (List.eraseP_of_forall_not fun candidate hcandidate hsame => hcached ?_)
      exact List.any_eq_true.mpr ⟨candidate, hcandidate, hsame⟩
    rw [herase, List.map_append, ← List.append_assoc]
    refine hnodup.append (List.nodup_singleton _) (List.disjoint_singleton.mpr ?_)
    rw [List.mem_append, not_or]
    exact ⟨notMem_of_not_any hany, notMem_of_not_any hcached⟩

theorem Invariant.add (h : bucket.Invariant k) (info : NodeInfo) : (bucket.add k info).Invariant k := by
  obtain ⟨hcontacts, hcache, hnodup, hfull⟩ := h
  unfold KBucket.add
  dsimp only
  split_ifs with hany hroom hlong
  · -- the contact is refreshed
    have hperm := perm_eraseP_append hany
    have hlength := hperm.length_eq
    rw [List.length_map, List.length_map] at hlength
    refine ⟨hlength.trans_le hcontacts, hcache, ?_, fun hne => hlength.trans (hfull hne)⟩
    rw [ids, List.map_append] at hnodup ⊢
    exact (hperm.append_right _).nodup_iff.mpr hnodup
  · -- there is room: then there are no candidates
    have hempty : bucket.replacementCache = [] := by
      by_contra hne
      exact absurd (hfull hne) hroom.ne
    refine ⟨?_, hcache, ?_, fun hne => absurd hempty hne⟩
    · rwa [List.length_append, List.length_singleton]
    · rw [ids, hempty, List.append_nil] at hnodup ⊢
      rw [List.map_append]
      exact hnodup.append (List.nodup_singleton _) (List.disjoint_singleton.mpr (notMem_of_not_any hany))
  all_goals
    obtain ⟨hnodup', hlength⟩ := nodup_candidates hnodup hany
    have hcount : bucket.contacts.length = k := le_antisymm hcontacts (not_lt.mp hroom)
  · -- the oldest candidate is dropped
    refine ⟨hcontacts, ?_, ?_, fun _ => hcount⟩
    · rw [List.length_drop]
      omega
    · exact hnodup'.sublist (((List.drop_sublist 1 _).append_left _).map _)
  · exact ⟨hcontacts, not_lt.mp hlong, hnodup', fun _ => hcount⟩

theorem mem_ids_add {id : NodeID} (h : id ∈ (bucket.add k info).ids) : id ∈ bucket.ids ∨ id = info.nodeId := by
  have hcases : ∀ {infos : List NodeInfo}, id ∈ (infos.eraseP (fun contact =>
      contact.nodeId = info.nodeId) ++ [info]).map NodeInfo.nodeId →
      id ∈ infos.map NodeInfo.nodeId ∨ id = info.nodeId := by
    intro infos hmem
    rw [List.map_append, List.mem_append] at hmem
    exact hmem.imp (fun hold => (List.eraseP_sublist.map _).subset hold) List.mem_singleton.mp
  rw [ids, List.map_append, List.mem_append] at h ⊢
  unfold KBucket.add at h
  dsimp only at h
  split_ifs at h with hany hroom hlong
  · exact h.elim (fun hcontact => (hcases hcontact).imp_left Or.inl) fun hcached => Or.inl (Or.inr hcached)
  · rw [List.map_append, List.mem_append] at h
    rcases h with (hcontact | hnew) | hcached
    · exact Or.inl (Or.inl hcontact)
    · exact Or.inr (List.mem_singleton.mp hnew)
    · exact Or.inl (Or.inr hcached)
  · refine h.elim (fun hcontact => Or.inl (Or.inl hcontact)) fun hcached => ?_
    exact (hcases (((List.drop_sublist 1 _).map _).subset hcached)).imp_left Or.inr
  · exact h.elim (fun hcontact => Or.inl (Or.inl hcontact)) fun hcached => (hcases hcached).imp_left Or.inr

theorem ids_remove_sublist (nodeId : NodeID) : ((bucket.remove k nodeId).1.ids).Sublist bucket.ids := by
  have hcontacts := List.eraseP_sublist (p := fun contact : NodeInfo => decide (contact.nodeId = nodeId))
    (l := bucket.contacts)
  have hcache := List.filter_sublist (p := fun candidate : NodeInfo => !decide (candidate.nodeId = nodeId))
    (l := bucket.replacementCache)
  have hboth := (hcontacts.append hcache).map NodeInfo.nodeId
  unfold KBucket.remove
  dsimp only
  cases hfilter : bucket.replacementCache.filter fun candidate => !decide (candidate.nodeId = nodeId) with
  | nil =>
    rw [hfilter] at hboth
    exact hboth
  | cons promoted cache =>
    rw [hfilter] at hboth
    split_ifs
    · rwa [ids, List.append_assoc]
    · exact hboth

theorem Invariant.remove (h : bucket.Invariant k) (nodeId : NodeID) : (bucket.remove k nodeId).1.Invariant k := by
  have hnodup := h.nodup.sublist (ids_remove_sublist (k := k) nodeId)
  obtain ⟨hcontacts, hcache, -, hfull⟩ := h
  have hle := List.length_filter_le (fun candidate : NodeInfo => !decide (candidate.nodeId = nodeId))
    bucket.replacementCache
  have herase := List.length_eraseP (p := fun contact : NodeInfo => decide (contact.nodeId = nodeId))
    (l := bucket.contacts)
  unfold KBucket.remove at hnodup ⊢
  dsimp only at hnodup ⊢
  rw [List.isSome_find?] at hnodup ⊢
  cases hfilter : bucket.replacementCache.filter fun candidate => !decide (candidate.nodeId = nodeId) with
  | nil =>
    rw [hfilter] at hnodup
    refine ⟨?_, k.zero_le, hnodup, fun hne => absurd rfl hne⟩
    exact List.length_eraseP_le.trans hcontacts
  | cons promoted cache =>
    have hcount : bucket.contacts.length = k := by
      refine hfull fun hempty => ?_
      rw [hempty] at hfilter
      cases hfilter
    rw [hfilter, List.length_cons] at hle
    rw [hfilter] at hnodup
    split_ifs at hnodup ⊢ with hpromote
    · rw [if_pos hpromote.1] at herase
      have hlength : (bucket.contacts.eraseP (fun contact => decide (contact.nodeId = nodeId)) ++
          [promoted]).length = k := by
        rw [List.length_append, List.length_singleton]
        omega
      exact ⟨hlength.le, by dsimp only; omega, hnodup, fun _ => hlength⟩
    · have hlength : (bucket.contacts.eraseP fun contact => decide (contact.nodeId = nodeId)).length = k := by
        split_ifs at herase with hfound
        · have := mt (And.intro hfound) hpromote
          omega
        · omega
      refine ⟨hlength.le, ?_, hnodup, fun _ => hlength⟩
      rw [List.length_cons]
      omega

/-- **A bucket keeps its contacts** when another one is added; one with the same id is replaced. -/
theorem mem_contacts_add_of_mem {contact : NodeInfo} (h : contact ∈ bucket.contacts) (info : NodeInfo) :
    contact ∈ (bucket.add k info).contacts ∨ contact.nodeId = info.nodeId ∧ info ∈ (bucket.add k info).contacts := by
  unfold KBucket.add
  dsimp only
  split_ifs with hany hroom
  · by_cases hsame : contact.nodeId = info.nodeId
    · exact Or.inr ⟨hsame, List.mem_append_right _ List.mem_cons_self⟩
    · refine Or.inl (List.mem_append_left _ ?_)
      exact (List.mem_eraseP_of_neg (by simpa using hsame)).mpr h
  · exact Or.inl (List.mem_append_left _ h)
  all_goals exact Or.inl h

theorem mem_contacts_add_self
    (h : ¬ (info.nodeId ∉ bucket.contacts.map NodeInfo.nodeId ∧ k ≤ bucket.contacts.length)) :
    info ∈ (bucket.add k info).contacts := by
  unfold KBucket.add
  dsimp only
  split_ifs with hany hroom
  · exact List.mem_append_right _ List.mem_cons_self
  · exact List.mem_append_right _ List.mem_cons_self
  all_goals exact absurd ⟨notMem_of_not_any hany, not_lt.mp hroom⟩ h

end KBucket

/-! ### The table -/

inductive RoutingCall where
  | addContact (info : NodeInfo)
  | removeContact (nodeId : NodeID)

def RoutingCall.nodeId : RoutingCall → NodeID
  | .addContact info => info.nodeId
  | .removeContact nodeId => nodeId

namespace RoutingTable

variable (table : RoutingTable)

def removeContact (nodeId : NodeID) : RoutingTable × Option NodeInfo :=
  if nodeId = table.nodeId then (table, none)
  else
    let bucketIndex := table.getBucketIndex nodeId
    ({ table with
        buckets := table.buckets.modify bucketIndex fun bucket => (bucket.remove table.k nodeId).1 },
      table.buckets[bucketIndex]?.bind fun bucket => (bucket.remove table.k nodeId).2)

def findClosestNodes (targetId : NodeID) (count : Option Nat) (exclude : Option NodeID) : List NodeInfo :=
  let limit := count.getD table.k
  let allContacts := table.buckets.flatMap fun bucket =>
    bucket.contacts.filter fun contact => exclude ≠ some contact.nodeId
  (sortBy (fun contact => contact.nodeId.distance targetId) allContacts).take limit

def step : RoutingCall → RoutingTable
  | .addContact info => table.addContact info
  | .removeContact nodeId => (table.removeContact nodeId).1

def after (calls : List RoutingCall) : RoutingTable := run step table calls

/-- What is true of every table with ids that are `valid`: each bucket is as it should be, and holds the ids that
belong there. -/
structure Invariant (valid : NodeID → Prop) : Prop where
  length : table.buckets.length = 160
  bucket : ∀ (i : Nat) (bucket : KBucket), table.buckets[i]? = some bucket → bucket.Invariant table.k ∧
    ∀ id ∈ bucket.ids, valid id ∧ id ≠ table.nodeId ∧ table.getBucketIndex id = i

variable {table} {info contact : NodeInfo} {nodeId : NodeID} {valid : NodeID → Prop}

theorem invariant_new (nodeId : NodeID) (k : Nat) : (new nodeId k).Invariant valid where
  length := List.length_replicate
  bucket i bucket hbucket := by
    rw [List.eq_of_mem_replicate (List.mem_of_getElem? hbucket)]
    exact ⟨KBucket.invariant_empty k, fun id hid => absurd hid List.not_mem_nil⟩

theorem getBucketIndex_lt (table : RoutingTable) (nodeId : NodeID) : table.getBucketIndex nodeId < 160 := by
  rw [getBucketIndex]
  split <;> omega

theorem getBucketIndex_spec (hlocal : table.nodeId.IsId) (hid : nodeId.IsId) (hne : nodeId ≠ table.nodeId) :
    2 ^ table.getBucketIndex nodeId ≤ nodeId.distance table.nodeId ∧
      nodeId.distance table.nodeId < 2 ^ (table.getBucketIndex nodeId + 1) := by
  have hzero := hid.distance_ne_zero hlocal hne
  have hlog : (nodeId.distance table.nodeId).log2 < 160 :=
    (Nat.log2_lt hzero).mpr (Nat.xor_lt_two_pow hid.int_lt hlocal.int_lt)
  have hindex : table.getBucketIndex nodeId = (nodeId.distance table.nodeId).log2 := by
    rw [getBucketIndex, NodeID.distance_comm, if_neg hzero]
    exact min_eq_left (by omega)
  rw [hindex]
  exact ⟨Nat.log2_self_le hzero, Nat.lt_log2_self⟩

section
variable (h : table.Invariant valid)
include h

theorem Invariant.modify {i : Nat} {f : KBucket → KBucket}
    (hf : ∀ bucket, bucket.Invariant table.k → (f bucket).Invariant table.k)
    (hids : ∀ bucket, ∀ id ∈ (f bucket).ids, id ∈ bucket.ids ∨
      valid id ∧ id ≠ table.nodeId ∧ table.getBucketIndex id = i) :
    ({ table with buckets := table.buckets.modify i f } : RoutingTable).Invariant valid where
  length := (List.length_modify ..).trans h.length
  bucket := by
    refine forall_getElem?_modify h.bucket fun bucket hbucket => ?_
    obtain ⟨hinvariant, hplaced⟩ := h.bucket i bucket hbucket
    exact ⟨hf bucket hinvariant, fun id hid => (hids bucket id hid).elim (hplaced id) fun hnew => hnew⟩

theorem Invariant.addContact (hid : valid info.nodeId) : (table.addContact info).Invariant valid := by
  unfold RoutingTable.addContact
  split_ifs with hlocal
  · exact h
  · refine h.modify (fun bucket hbucket => hbucket.add info) fun bucket id hmem => ?_
    refine (KBucket.mem_ids_add hmem).imp_right ?_
    rintro rfl
    exact ⟨hid, hlocal, rfl⟩

theorem Invariant.removeContact (nodeId : NodeID) : (table.removeContact nodeId).1.Invariant valid := by
  unfold RoutingTable.removeContact
  split_ifs with hlocal
  · exact h
  · exact h.modify (fun bucket hbucket => hbucket.remove nodeId) fun bucket id hmem =>
      Or.inl ((KBucket.ids_remove_sublist nodeId).subset hmem)

end

theorem step_same (table : RoutingTable) (c : RoutingCall) :
    (table.step c).nodeId = table.nodeId ∧ (table.step c).k = table.k := by
  cases c with
  | addContact info =>
    rw [step, RoutingTable.addContact]
    split_ifs <;> exact ⟨rfl, rfl⟩
  | removeContact nodeId =>
    rw [step, RoutingTable.removeContact]
    split_ifs <;> exact ⟨rfl, rfl⟩

theorem Invariant.after (h : table.Invariant valid) {calls : List RoutingCall}
    (hcalls : ∀ c ∈ calls, valid c.nodeId) :
    (table.after calls).Invariant valid ∧ (table.after calls).nodeId = table.nodeId ∧
      (table.after calls).k = table.k := by
  induction calls generalizing table with
  | nil => exact ⟨h, rfl, rfl⟩
  | cons c calls ih =>
    have hnext : (table.step c).Invariant valid := by
      cases c with
      | addContact info => exact h.addContact (hcalls _ List.mem_cons_self)
      | removeContact nodeId => exact h.removeContact nodeId
    obtain ⟨hid, hk⟩ := step_same table c
    have hrest := ih hnext fun other hother => hcalls other (List.mem_cons_of_mem _ hother)
    rwa [hid, hk] at hrest

theorem mem_contacts :
    contact ∈ table.contacts ↔ ∃ (i : Nat) (bucket : KBucket), table.buckets[i]? = some bucket ∧
      contact ∈ bucket.contacts := by
  rw [contacts, List.mem_flatMap]
  constructor
  · rintro ⟨bucket, hbucket, hcontact⟩
    obtain ⟨i, hi⟩ := List.mem_iff_getElem?.mp hbucket
    exact ⟨i, bucket, hi, hcontact⟩
  · rintro ⟨i, bucket, hi, hcontact⟩
    exact ⟨bucket, List.mem_of_getElem? hi, hcontact⟩

theorem mem_contacts_addContact (hlocal : info.nodeId ≠ table.nodeId) :
    contact ∈ (table.addContact info).contacts ↔
      ∃ (i : Nat) (bucket : KBucket), table.buckets[i]? = some bucket ∧ contact ∈
        (if table.getBucketIndex info.nodeId = i then bucket.add table.k info else bucket).contacts := by
  rw [RoutingTable.addContact, if_neg hlocal, mem_contacts]
  simp only [List.getElem?_modify, Option.map_eq_map, Option.map_eq_some_iff]
  constructor
  · rintro ⟨i, _, ⟨bucket, hbucket, rfl⟩, hcontact⟩
    exact ⟨i, bucket, hbucket, by split_ifs at hcontact ⊢ <;> exact hcontact⟩
  · rintro ⟨i, bucket, hbucket, hcontact⟩
    exact ⟨i, _, ⟨bucket, hbucket, rfl⟩, by split_ifs at hcontact ⊢ <;> exact hcontact⟩

/-- **No contact is evicted** by an added one. -/
theorem mem_contacts_addContact_of_mem (h : contact ∈ table.contacts)
    (info : NodeInfo) : contact ∈ (table.addContact info).contacts ∨
      contact.nodeId = info.nodeId ∧ info ∈ (table.addContact info).contacts := by
  by_cases hlocal : info.nodeId = table.nodeId
  · rw [RoutingTable.addContact, if_pos hlocal]
    exact Or.inl h
  · obtain ⟨i, bucket, hbucket, hcontact⟩ := mem_contacts.mp h
    rw [mem_contacts_addContact hlocal, mem_contacts_addContact hlocal]
    by_cases hindex : table.getBucketIndex info.nodeId = i
    · refine (KBucket.mem_contacts_add_of_mem (k := table.k) hcontact info).imp (fun hkept => ?_)
        (And.imp_right fun hnew => ?_)
      · exact ⟨i, bucket, hbucket, by rwa [if_pos hindex]⟩
      · exact ⟨i, bucket, hbucket, by rwa [if_pos hindex]⟩
    · exact Or.inl ⟨i, bucket, hbucket, by rwa [if_neg hindex]⟩

/-- **The representation of the routing table.** -/
theorem after_representation {nodeId : NodeID} (hlocal : nodeId.IsId) (k : Nat) (calls : List RoutingCall)
    (hcalls : ∀ c ∈ calls, c.nodeId.IsId) :
    let table := (new nodeId k).after calls
    (∀ (i : Nat) (bucket : KBucket), table.buckets[i]? = some bucket →
      (∀ info ∈ bucket.contacts ++ bucket.replacementCache, info.nodeId ≠ nodeId ∧
        2 ^ i ≤ info.nodeId.distance nodeId ∧ info.nodeId.distance nodeId < 2 ^ (i + 1)) ∧
      bucket.contacts.length ≤ k ∧ bucket.replacementCache.length ≤ k ∧
      ((bucket.contacts ++ bucket.replacementCache).map NodeInfo.nodeId).Nodup ∧
      (bucket.replacementCache ≠ [] → bucket.contacts.length = k)) ∧
    ∀ info : NodeInfo, ∀ contact ∈ table.contacts, contact ∈ (table.addContact info).contacts ∨
      contact.nodeId = info.nodeId ∧ info ∈ (table.addContact info).contacts := by
  intro table
  obtain ⟨hinvariant, hid, hk⟩ := (invariant_new nodeId k).after hcalls
  refine ⟨fun i bucket hbucket => ?_, fun info contact hcontact =>
    mem_contacts_addContact_of_mem hcontact info⟩
  obtain ⟨⟨hcontacts, hcache, hnodup, hfull⟩, hplaced⟩ := hinvariant.bucket i bucket hbucket
  rw [hk] at hcontacts hcache hfull
  refine ⟨fun info hinfo => ?_, hcontacts, hcache, hnodup, hfull⟩
  obtain ⟨hvalid, hne, rfl⟩ := hplaced info.nodeId (List.mem_map_of_mem hinfo)
  have hlocal' : table.nodeId.IsId := hid ▸ hlocal
  have hspec := getBucketIndex_spec hlocal' hvalid hne
  rw [hid] at hne hspec
  exact ⟨hne, hspec⟩

/-- A newcomer becomes a candidate, and when the contact is removed it takes its place, in the bucket of its
distance. -/
theorem after_representation_promoted :
    let calls : List RoutingCall :=
      [.addContact ⟨exampleId 2, "a", 1, none⟩, .addContact ⟨exampleId 3, "b", 1, none⟩,
        .removeContact (exampleId 2)]
    let table := (new (exampleId 0) 1).after calls
    (∀ c ∈ calls, c.nodeId.IsId) ∧ table.contacts.map NodeInfo.nodeId = [exampleId 3] ∧
      ∃ bucket ∈ table.buckets[1]?, bucket.contacts ≠ [] ∧
        (∀ info ∈ bucket.contacts ++ bucket.replacementCache,
          info.nodeId ≠ exampleId 0 ∧ 2 ≤ info.nodeId.distance (exampleId 0) ∧
            info.nodeId.distance (exampleId 0) < 4) ∧
        bucket.contacts.length ≤ 1 ∧ bucket.replacementCache.length ≤ 1 ∧
        ((bucket.contacts ++ bucket.replacementCache).map NodeInfo.nodeId).Nodup ∧
        (bucket.replacementCache ≠ [] → bucket.contacts.length = 1) := by
  intro calls table
  have hcalls : ∀ c ∈ calls, c.nodeId.IsId := by decide
  have hlocal : (exampleId 0).IsId := rfl
  have hkept : table.buckets[1]? = some ⟨[⟨exampleId 3, "b", 1, none⟩], []⟩ := by rfl
  refine ⟨hcalls, by decide +kernel, _, hkept, List.cons_ne_nil _ _, ?_⟩
  exact (after_representation hlocal 1 calls hcalls).1 1 _ hkept

/-- The local id of a table whose other ids have a byte less. -/
def paddedId : Option NodeID := NodeID.ofString "0011222222222222222222222222222222222222"

/-- The same number in 19 bytes: the text has two blanks after its first byte. -/
def shortId : Option NodeID := NodeID.ofString "11  222222222222222222222222222222222222"

/-- An id of 19 bytes that is not the local one is at distance 0 from it, which no bucket is for; it is kept in the
first one. -/
theorem after_misplaced_shortId :
    ∃ nodeId ∈ paddedId, ∃ id ∈ shortId, id ≠ nodeId ∧ id.distance nodeId = 0 ∧
      ∃ bucket ∈ ((new nodeId 20).after [.addContact ⟨id, "a", 1, none⟩]).buckets[0]?,
        id ∈ bucket.contacts.map NodeInfo.nodeId ∧ ¬ 2 ^ 0 ≤ id.distance nodeId := by
  decide +kernel

/-! ### The closest nodes -/

theorem Invariant.of_mem_contacts (h : table.Invariant valid) (hcontact : contact ∈ table.contacts) :
    valid contact.nodeId := by
  obtain ⟨i, bucket, hbucket, hcontact⟩ := mem_contacts.mp hcontact
  exact ((h.bucket i bucket hbucket).2 _ (List.mem_map_of_mem (List.mem_append_left _ hcontact))).1

theorem Invariant.nodup_contacts (h : table.Invariant valid) : (table.contacts.map NodeInfo.nodeId).Nodup := by
  have hplaced : ∀ (i : Nat) (bucket : KBucket), table.buckets[i]? = some bucket →
      ∀ id ∈ bucket.contacts.map NodeInfo.nodeId, table.getBucketIndex id = i := by
    intro i bucket hbucket id hid
    refine ((h.bucket i bucket hbucket).2 id ?_).2.2
    rw [KBucket.ids, List.map_append]
    exact List.mem_append_left _ hid
  rw [contacts, List.map_flatMap, List.nodup_flatMap]
  constructor
  · intro bucket hbucket
    obtain ⟨i, hi⟩ := List.mem_iff_getElem?.mp hbucket
    have hnodup := (h.bucket i bucket hi).1.nodup
    rw [KBucket.ids, List.map_append] at hnodup
    exact hnodup.of_append_left
  · rw [List.pairwise_iff_getElem]
    intro i j hi hj hij id hmem hmem'
    have hfirst := hplaced i _ (List.getElem?_eq_getElem hi) id hmem
    have hsecond := hplaced j _ (List.getElem?_eq_getElem hj) id hmem'
    omega

theorem Invariant.nodup_distances (h : table.Invariant NodeID.IsId) (targetId : NodeID) (p : NodeInfo → Bool) :
    ((table.contacts.filter p).map fun contact => contact.nodeId.distance targetId).Nodup := by
  refine List.Nodup.map_on ?_ (h.nodup_contacts.of_map.filter p)
  intro a ha b hb hdistance
  have ha := List.mem_of_mem_filter ha
  have hb := List.mem_of_mem_filter hb
  have hid := (h.of_mem_contacts ha).int_inj (h.of_mem_contacts hb) (Nat.xor_left_injective hdistance)
  exact List.inj_on_of_nodup_map h.nodup_contacts ha hb hid

def candidates (table : RoutingTable) (exclude : Option NodeID) : List NodeInfo :=
  table.contacts.filter fun contact => exclude ≠ some contact.nodeId

section
variable (targetId : NodeID) (count : Option Nat) (exclude : Option NodeID)

theorem findClosestNodes_eq :
    table.findClosestNodes targetId count exclude =
      (sortBy (fun contact => contact.nodeId.distance targetId) (table.candidates exclude)).take
        (count.getD table.k) := by
  rw [findClosestNodes, candidates, contacts, List.filter_flatMap]

theorem Invariant.findClosestNodes (h : table.Invariant valid) :
    let found := table.findClosestNodes targetId count exclude
    found.length = min (count.getD table.k) (table.candidates exclude).length ∧
      (found.map NodeInfo.nodeId).Nodup ∧ (∀ contact ∈ found, contact ∈ table.candidates exclude) ∧
      found.Pairwise fun a b => a.nodeId.distance targetId ≤ b.nodeId.distance targetId := by
  intro found
  have hfound : found = _ := findClosestNodes_eq ..
  have hperm := sortBy_perm (fun contact : NodeInfo => contact.nodeId.distance targetId)
    (table.candidates exclude)
  have htake := List.take_sublist (count.getD table.k)
    (sortBy (fun contact => contact.nodeId.distance targetId) (table.candidates exclude))
  have hnodup : ((table.candidates exclude).map NodeInfo.nodeId).Nodup :=
    h.nodup_contacts.sublist (List.filter_sublist.map _)
  rw [hfound]
  refine ⟨?_, ?_, ?_, (sortBy_pairwise _ _).sublist htake⟩
  · rw [List.length_take, hperm.length_eq]
  · exact ((hperm.map _).nodup_iff.mpr hnodup).sublist (htake.map _)
  · exact fun contact hcontact => hperm.mem_iff.mp (List.mem_of_mem_take hcontact)

theorem Invariant.findClosestNodes_nearest (h : table.Invariant NodeID.IsId) :
    let found := table.findClosestNodes targetId count exclude
    (found.Pairwise fun a b => a.nodeId.distance targetId < b.nodeId.distance targetId) ∧
      ∀ contact ∈ table.candidates exclude, contact ∉ found → ∀ nearer ∈ found,
        nearer.nodeId.distance targetId < contact.nodeId.distance targetId := by
  intro found
  have hdistances : ((table.candidates exclude).map fun contact => contact.nodeId.distance targetId).Nodup :=
    h.nodup_distances targetId _
  have hfound : found = _ := findClosestNodes_eq ..
  rw [hfound]
  refine ⟨(sortBy_increasing hdistances).sublist (List.take_sublist _ _), ?_⟩
  exact fun contact hcontact hout nearer hnearer => lt_of_mem_take_sortBy hdistances hnearer hcontact hout

end

/-! ### The order of insertions -/

def Overflows (table : RoutingTable) (info : NodeInfo) : Prop :=
  info.nodeId ≠ table.nodeId ∧ ∃ bucket ∈ table.buckets[table.getBucketIndex info.nodeId]?,
    info.nodeId ∉ bucket.contacts.map NodeInfo.nodeId ∧ table.k ≤ bucket.contacts.length
deriving Decidable

theorem mem_contacts_addContact_iff (h : table.Invariant valid) (hroom : ¬ table.Overflows info)
    (hsame : ∀ contact ∈ table.contacts, contact.nodeId = info.nodeId → contact = info) (contact : NodeInfo) :
    contact ∈ (table.addContact info).contacts ↔
      contact ∈ table.contacts ∨ contact = info ∧ info.nodeId ≠ table.nodeId := by
  by_cases hlocal : info.nodeId = table.nodeId
  · rw [RoutingTable.addContact, if_pos hlocal]
    simp [hlocal]
  · have hindex := table.getBucketIndex_lt info.nodeId
    rw [← h.length] at hindex
    have hbucket := List.getElem?_eq_getElem hindex
    constructor
    · rw [mem_contacts_addContact hlocal]
      rintro ⟨i, bucket, hi, hcontact⟩
      split_ifs at hcontact with hplace
      · refine (KBucket.mem_contacts_add hcontact).imp (fun hold => ?_) fun hnew => ⟨hnew, hlocal⟩
        exact mem_contacts.mpr ⟨i, bucket, hi, hold⟩
      · exact Or.inl (mem_contacts.mpr ⟨i, bucket, hi, hcontact⟩)
    · rintro (hold | ⟨rfl, -⟩)
      · refine (mem_contacts_addContact_of_mem hold info).elim id fun hnew => ?_
        rw [hsame contact hold hnew.1]
        exact hnew.2
      · refine (mem_contacts_addContact hlocal).mpr ⟨_, _, hbucket, ?_⟩
        rw [if_pos rfl]
        exact KBucket.mem_contacts_add_self fun hfull => hroom ⟨hlocal, _, hbucket, hfull⟩

theorem mem_contacts_run_addContact (h : table.Invariant valid) {infos : List NodeInfo} (book : NodeInfo → Prop)
    (hbook : ∀ a b, book a → book b → a.nodeId = b.nodeId → a = b)
    (hcontacts : ∀ contact ∈ table.contacts, book contact) (hinfos : ∀ info ∈ infos, book info ∧ valid info.nodeId)
    (hroom : Along addContact (fun table info => ¬ table.Overflows info) table infos) :
    contact ∈ (run addContact table infos).contacts ↔
      contact ∈ table.contacts ∨ contact ∈ infos ∧ contact.nodeId ≠ table.nodeId := by
  induction infos generalizing table with
  | nil => simp
  | cons info infos ih =>
    obtain ⟨hinfo, hrest⟩ := List.forall_mem_cons.mp hinfos
    have hsame : ∀ contact ∈ table.contacts, contact.nodeId = info.nodeId → contact = info :=
      fun contact hcontact => hbook _ _ (hcontacts contact hcontact) hinfo.1
    have hstep := mem_contacts_addContact_iff h hroom.1 hsame
    have hnext : ∀ contact ∈ (table.addContact info).contacts, book contact := by
      intro contact hcontact
      rcases (hstep contact).mp hcontact with hold | ⟨rfl, -⟩
      · exact hcontacts contact hold
      · exact hinfo.1
    have hlocal := (step_same table (.addContact info)).1
    rw [step] at hlocal
    rw [run_cons, ih (h.addContact hinfo.2) hnext hrest hroom.2, hstep, hlocal, List.mem_cons]
    constructor
    · rintro ((hold | ⟨rfl, hne⟩) | ⟨hmem, hne⟩)
      · exact Or.inl hold
      · exact Or.inr ⟨Or.inl rfl, hne⟩
      · exact Or.inr ⟨Or.inr hmem, hne⟩
    · rintro (hold | ⟨rfl | hmem, hne⟩)
      · exact Or.inl (Or.inl hold)
      · exact Or.inl (Or.inr ⟨rfl, hne⟩)
      · exact Or.inr ⟨hmem, hne⟩

theorem not_mem_contacts_new (nodeId : NodeID) (k : Nat) (contact : NodeInfo) :
    contact ∉ (new nodeId k).contacts := by
  intro hcontact
  obtain ⟨bucket, hbucket, hcontact⟩ := List.mem_flatMap.mp hcontact
  rw [List.eq_of_mem_replicate hbucket] at hcontact
  cases hcontact

theorem inserted (nodeId : NodeID) (k : Nat) {infos : List NodeInfo}
    (hids : ∀ info ∈ infos, valid info.nodeId) (hbook : ∀ a ∈ infos, ∀ b ∈ infos, a.nodeId = b.nodeId → a = b)
    (hroom : Along addContact (fun table info => ¬ table.Overflows info) (new nodeId k) infos) :
    (run addContact (new nodeId k) infos).Invariant valid ∧ (run addContact (new nodeId k) infos).k = k ∧
      ∀ contact, contact ∈ (run addContact (new nodeId k) infos).contacts ↔
        contact ∈ infos ∧ contact.nodeId ≠ nodeId := by
  have hcalls : (new nodeId k).after (infos.map .addContact) = run addContact (new nodeId k) infos :=
    List.foldl_map
  have hcallIds : ∀ c ∈ infos.map RoutingCall.addContact, valid c.nodeId := List.forall_mem_map.mpr hids
  obtain ⟨hinvariant, -, hk⟩ := (invariant_new nodeId k).after hcallIds
  rw [hcalls] at hinvariant hk
  refine ⟨hinvariant, hk, fun contact => ?_⟩
  rw [mem_contacts_run_addContact (invariant_new nodeId k) (· ∈ infos)
    (fun a b ha hb => hbook a ha b hb) (fun contact hcontact => absurd hcontact (not_mem_contacts_new _ _ _))
    (fun info hinfo => ⟨hinfo, hids info hinfo⟩) hroom]
  exact or_iff_right (not_mem_contacts_new _ _ _)

/-- **A query is exact and does not depend on the order of insertions.** It returns the nearest contacts in
strictly increasing distance, and insertions of the same contacts, each with an id of its own, in two orders
for which every bucket has room give the same answer. -/
theorem findClosestNodes_exact (nodeId : NodeID) (k : Nat) :
    (∀ calls : List RoutingCall, (∀ c ∈ calls, c.nodeId.IsId) →
      ∀ (targetId : NodeID) (count : Option Nat) (exclude : Option NodeID),
      let table := (new nodeId k).after calls
      let found := table.findClosestNodes targetId count exclude
      found.length = min (count.getD k) (table.candidates exclude).length ∧
        (found.map NodeInfo.nodeId).Nodup ∧ (∀ contact ∈ found, contact ∈ table.candidates exclude) ∧
        (found.Pairwise fun a b => a.nodeId.distance targetId < b.nodeId.distance targetId) ∧
        ∀ contact ∈ table.candidates exclude, contact ∉ found → ∀ nearer ∈ found,
          nearer.nodeId.distance targetId < contact.nodeId.distance targetId) ∧
    ∀ infos infos' : List NodeInfo, (∀ info ∈ infos, info.nodeId.IsId) →
      (∀ a ∈ infos, ∀ b ∈ infos, a.nodeId = b.nodeId → a = b) → (∀ info, info ∈ infos ↔ info ∈ infos') →
      Along addContact (fun table info => ¬ table.Overflows info) (new nodeId k) infos →
      Along addContact (fun table info => ¬ table.Overflows info) (new nodeId k) infos' →
      ∀ (targetId : NodeID) (count : Option Nat) (exclude : Option NodeID),
        (run addContact (new nodeId k) infos).findClosestNodes targetId count exclude =
          (run addContact (new nodeId k) infos').findClosestNodes targetId count exclude := by
  constructor
  · intro calls hcalls targetId count exclude table
    obtain ⟨hinvariant, -, hk⟩ := (invariant_new nodeId k).after hcalls
    obtain ⟨hlength, hnodup, hmem, -⟩ := hinvariant.findClosestNodes targetId count exclude
    rw [hk] at hlength
    exact ⟨hlength, hnodup, hmem, hinvariant.findClosestNodes_nearest targetId count exclude⟩
  · intro infos infos' hids hbook hmem hroom hroom' targetId count exclude
    have hids' : ∀ info ∈ infos', info.nodeId.IsId := fun info hinfo => hids info ((hmem info).mpr hinfo)
    have hbook' : ∀ a ∈ infos', ∀ b ∈ infos', a.nodeId = b.nodeId → a = b := fun a ha b hb =>
      hbook a ((hmem a).mpr ha) b ((hmem b).mpr hb)
    obtain ⟨hinvariant, hk, hcontacts⟩ := inserted nodeId k hids hbook hroom
    obtain ⟨hinvariant', hk', hcontacts'⟩ := inserted nodeId k hids' hbook' hroom'
    have hperm : ((run addContact (new nodeId k) infos).candidates exclude).Perm
        ((run addContact (new nodeId k) infos').candidates exclude) := by
      refine List.Perm.filter _ ((List.perm_ext_iff_of_nodup hinvariant.nodup_contacts.of_map
        hinvariant'.nodup_contacts.of_map).mpr fun contact => ?_)
      rw [hcontacts, hcontacts', hmem]
    rw [findClosestNodes_eq, findClosestNodes_eq, hk, hk',
      Lib.sortBy_eq_of_perm hperm (hinvariant.nodup_distances targetId _)]

/-- Two contacts of different buckets, in both orders, and the one that is nearest to the second. -/
theorem findClosestNodes_two_orders :
    let near : NodeInfo := ⟨exampleId 3, "a", 1, none⟩
    let far : NodeInfo := ⟨exampleId 4, "b", 1, none⟩
    (run addContact (new (exampleId 0) 1) [near, far]).findClosestNodes (exampleId 5) (some 1) none =
        (run addContact (new (exampleId 0) 1) [far, near]).findClosestNodes (exampleId 5) (some 1) none := by
  intro near far
  have hbook : ∀ a ∈ [near, far], ∀ b ∈ [near, far], a.nodeId = b.nodeId → a = b := by
    have hne : near.nodeId ≠ far.nodeId := by decide
    simp [hne, hne.symm]
  exact (findClosestNodes_exact (exampleId 0) 1).2 [near, far] [far, near] (by decide) hbook
    (fun info => by simp [or_comm]) (by decide +kernel) (by decide +kernel) (exampleId 5) (some 1) none

/-- Two different ids that are the same number are equally far from every target, and the one that was inserted
first is found. -/
theorem findClosestNodes_by_insertion :
    ∃ padded ∈ paddedId, ∃ short ∈ shortId,
      let first : NodeInfo := ⟨padded, "a", 1, none⟩
      let second : NodeInfo := ⟨short, "b", 1, none⟩
      let table := run addContact (new (exampleId 0) 20) [first, second]
      let other := run addContact (new (exampleId 0) 20) [second, first]
      padded ≠ short ∧ padded.distance (exampleId 5) = short.distance (exampleId 5) ∧
        Along addContact (fun table info => ¬ table.Overflows info) (new (exampleId 0) 20) [first, second] ∧
        Along addContact (fun table info => ¬ table.Overflows info) (new (exampleId 0) 20) [second, first] ∧
        (table.findClosestNodes (exampleId 5) (some 1) none).map NodeInfo.nodeId = [padded] ∧
        (other.findClosestNodes (exampleId 5) (some 1) none).map NodeInfo.nodeId = [short] := by
  decide +kernel

end RoutingTable

end MeshWeaver
