import MeshWeaver.Raft.Jobs

/-!
# Leases and fencing tokens

`LOCK_ACQUIRE` grants a resource, renews a lease or refuses (`AcquireMove`), and `LOCK_RELEASE` frees it or does nothing
(`ReleaseMove`). Over the whole history every token handed out, for a lease or for a job, is greater than all before it
(`Linked.tokens`); and as long as the holder of a lease neither releases it nor lets it run out (`Keeps`), nobody else
gets the resource or frees it, and renewals keep the token (`Holds.step`). A command without a client acts for
`anonymous`, and one without a key is about `default_resource`.
-/

namespace MeshWeaver

open Lib

namespace LogEntry

variable (entry : LogEntry)

def resource : String := orStr entry.key "default_resource"

def holder : String := orStr entry.clientId "anonymous"

def ttlSeconds : Except PyError Rat := do
  (← entry.extraData.getD "ttl_seconds" (.float 30)).toFloat

end LogEntry

namespace ReplicatedStateMachine

/-! ### The two commands -/

section moves
variable (now : Rat) (entry : LogEntry) (sm : ReplicatedStateMachine)

inductive AcquireMove (after : ReplicatedStateMachine) (result : Except PyError CommandResult) : Prop
  | raises (err : PyError) (state : after = sm) (answer : result = .error err)
  | grants (ttl : Rat) (ttl_eq : entry.ttlSeconds = .ok ttl)
      (free : ∀ l, sm.locks.get? entry.resource = some l → l.isExpired now = true)
      (state : after = { sm with
        fencingTokenCounter := sm.fencingTokenCounter + 1
        locks := sm.locks.insert entry.resource
          ⟨entry.resource, entry.holder, sm.fencingTokenCounter + 1, now, ttl⟩ })
      (answer : result = .ok (.lock
        ⟨true, entry.resource, some (sm.fencingTokenCounter + 1), some entry.holder, none⟩))
  | renews (ttl : Rat) (ttl_eq : entry.ttlSeconds = .ok ttl) (l : DistributedLock)
      (held : sm.locks.get? entry.resource = some l) (live : l.isExpired now = false)
      (own : l.holderId = entry.holder)
      (state : after = { sm with
        locks := sm.locks.insert entry.resource { l with acquiredAt := now, ttlSeconds := ttl } })
      (answer : result = .ok (.lock
        ⟨true, entry.resource, some l.fencingToken, some entry.holder, none⟩))
  | refuses (l : DistributedLock) (held : sm.locks.get? entry.resource = some l)
      (live : l.isExpired now = false) (other : l.holderId ≠ entry.holder) (state : after = sm)
      (answer : result = .ok (.lock ⟨false, entry.resource, none, some l.holderId,
        some ("Resource '" ++ entry.resource ++ "' currently locked by " ++ l.holderId)⟩))

theorem acquireMove : AcquireMove now entry sm (applyLockAcquire now entry sm).1 (applyLockAcquire now entry sm).2 := by
  have hunfold : applyLockAcquire now entry sm = sm.withArg entry.ttlSeconds fun ttl =>
      _ := rfl
  cases httl : entry.ttlSeconds with
  | error e =>
    rw [hunfold, httl]
    exact .raises e rfl rfl
  | ok ttl =>
    rw [hunfold, httl]
    cases hget : sm.locks.get? (orStr entry.key "default_resource") with
    | none => exact .grants ttl httl (by simp [LogEntry.resource, hget]) rfl rfl
    | some l =>
      dsimp only
      split_ifs with hexp hown
      · refine .grants ttl httl (fun l' hl' => ?_) rfl rfl
        rw [LogEntry.resource, hget, Option.some.injEq] at hl'
        exact hl' ▸ hexp
      · exact .renews ttl httl l hget (by simpa using hexp) hown rfl rfl
      · exact .refuses l hget (by simpa using hexp) hown rfl rfl

inductive ReleaseMove (after : ReplicatedStateMachine) (result : Except PyError CommandResult) : Prop
  | raises (err : PyError) (state : after = sm) (answer : result = .error err)
  | absent (free : sm.locks.get? entry.resource = none) (state : after = sm) (answer : result = truth true)
  | refuses (l : DistributedLock) (held : sm.locks.get? entry.resource = some l) (state : after = sm)
      (answer : result = truth false)
  | frees (l : DistributedLock) (held : sm.locks.get? entry.resource = some l)
      (own : ∀ c, entry.clientId = some c → l.holderId = c)
      (state : after = { sm with locks := sm.locks.erase entry.resource }) (answer : result = truth true)

theorem releaseMove : ReleaseMove entry sm (applyLockRelease entry sm).1 (applyLockRelease entry sm).2 := by
  have hunfold : applyLockRelease entry sm = sm.withArg entry.fencingArg fun token => _ := rfl
  cases htoken : entry.fencingArg with
  | error e =>
    rw [hunfold, htoken]
    exact .raises e rfl rfl
  | ok token =>
    rw [hunfold, htoken]
    simp only [withArg]
    cases hget : sm.locks.get? (orStr entry.key "default_resource") with
    | none => exact .absent hget rfl rfl
    | some l =>
      dsimp only
      split_ifs with htok hholder
      · exact .refuses l hget rfl rfl
      · exact .refuses l hget rfl rfl
      · refine .frees l hget (fun c hc => ?_) rfl rfl
        rw [hc] at hholder
        simpa using hholder

end moves

/-! ### Single commands of a history -/

namespace Applied.Leaf

variable {a : Applied}

theorem acquireMove (h : a.Leaf) (hk : a.entry.commandType = .lockAcquire) :
    AcquireMove a.now a.entry a.before.counted a.after a.result := by
  obtain ⟨clock, hnow, hafter, hresult⟩ := h.outcome
  rw [hafter, hresult, applyWithin, hk, hnow]
  exact ReplicatedStateMachine.acquireMove _ _ _

theorem releaseMove (h : a.Leaf) (hk : a.entry.commandType = .lockRelease) :
    ReleaseMove a.entry a.before.counted a.after a.result := by
  obtain ⟨clock, -, hafter, hresult⟩ := h.outcome
  rw [hafter, hresult, applyWithin, hk]
  exact ReplicatedStateMachine.releaseMove _ _

theorem locks_eq (h : a.Leaf) (hacquire : a.entry.commandType ≠ .lockAcquire)
    (hrelease : a.entry.commandType ≠ .lockRelease) : a.after.locks = a.before.locks := by
  cases h.writes with
  | locks kind _ => exact (kind.elim hacquire hrelease).elim
  | kv only | assign _ only | jobs _ only => rw [only]; rfl

end Applied.Leaf

/-! ### The tokens -/

/-- A lease is in force, so that acquiring the resource again hands out no new token. -/
def Applied.underLease (a : Applied) : Bool :=
  match a.before.locks.get? a.entry.resource with
  | some l => !l.isExpired a.now
  | none => false

/-- The token handed out by a command: by a `LOCK_ACQUIRE` that does not renew, or a `JOB_ASSIGN`. -/
def Applied.token? (a : Applied) : Option Int :=
  match a.entry.commandType, a.result with
  | .lockAcquire, .ok (.lock r) => if a.underLease then none else r.fencingToken
  | .jobAssign, .ok (.job j) => j.fencingToken
  | _, _ => none

variable {a : Applied} {sm sm' : ReplicatedStateMachine} {lease : Lease}

theorem Applied.Leaf.token_acquire (h : a.Leaf) (hk : a.entry.commandType = .lockAcquire) :
    a.before.fencingTokenCounter ≤ a.after.fencingTokenCounter ∧
      ∀ t ∈ a.token?, a.before.fencingTokenCounter < t ∧ t = a.after.fencingTokenCounter := by
  have hunder : ∀ l, a.before.locks.get? a.entry.resource = some l → l.isExpired a.now = false →
      a.underLease = true := by
    intro l hl hlive
    simp [Applied.underLease, hl, hlive]
  cases h.acquireMove hk with
  | raises err hafter hres => exact ⟨by rw [hafter]; rfl, by simp [Applied.token?, hk, hres]⟩
  | grants ttl _ _ hafter hres =>
    rw [hafter]
    refine ⟨(lt_add_one _).le, fun t ht => ?_⟩
    simp only [Applied.token?, hk, hres] at ht
    split_ifs at ht
    · simp at ht
    · rw [Option.mem_some_iff] at ht
      exact ⟨ht ▸ lt_add_one _, ht.symm⟩
  | renews ttl _ l hheld hlive _ hafter hres =>
    rw [hafter]
    exact ⟨le_rfl, by simp [Applied.token?, hk, hres, hunder l hheld hlive]⟩
  | refuses l hheld hlive _ hafter hres =>
    rw [hafter]
    exact ⟨le_rfl, by simp [Applied.token?, hk, hres]⟩

theorem Applied.Leaf.token_assign (h : a.Leaf) (hk : a.entry.commandType = .jobAssign) :
    a.before.fencingTokenCounter ≤ a.after.fencingTokenCounter ∧
      ∀ t ∈ a.token?, a.before.fencingTokenCounter < t ∧ t = a.after.fencingTokenCounter := by
  cases h.jobMove with
  | idle _ answer =>
    obtain ⟨hafter, hjob, -⟩ := answer (by rw [hk]; rfl)
    refine ⟨by rw [hafter]; rfl, fun t ht => ?_⟩
    unfold Applied.token? at ht
    rw [hk] at ht
    split at ht
    · contradiction
    · rename_i job _ hres
      exact absurd hres (hjob job)
    · cases ht
  | assigns jobId job worker _ _ _ _ hcounter hres =>
    rw [hcounter]
    refine ⟨(lt_add_one _).le, fun t ht => ?_⟩
    simp only [Applied.token?, hk, hres, ConsensusJob.assign, Option.mem_some_iff] at ht
    exact ⟨ht ▸ lt_add_one _, ht.symm⟩
  | submits _ kind | completes _ _ _ _ kind | fails _ _ _ kind | cancels _ _ kind => simp [hk] at kind

theorem Applied.Leaf.token (h : a.Leaf) :
    a.before.fencingTokenCounter ≤ a.after.fencingTokenCounter ∧
      ∀ t ∈ a.token?, a.before.fencingTokenCounter < t ∧ t = a.after.fencingTokenCounter := by
  by_cases hacquire : a.entry.commandType = .lockAcquire
  · exact h.token_acquire hacquire
  by_cases hassign : a.entry.commandType = .jobAssign
  · exact h.token_assign hassign
  have hnone : a.token? = none := by
    unfold Applied.token?
    split <;> first | contradiction | rfl
  have hcounter : a.after.fencingTokenCounter = a.before.fencingTokenCounter := by
    cases h.writes with
    | locks kind _ =>
      cases h.releaseMove (kind.resolve_left hacquire) with
      | raises _ hafter | absent _ hafter | refuses _ _ hafter | frees _ _ _ hafter => rw [hafter]; rfl
    | assign kind _ => exact absurd kind hassign
    | kv only | jobs _ only => rw [only]; rfl
  exact ⟨hcounter.ge, by simp [hnone]⟩

/-- **Tokens increase** along a history, and exceed what the counter was before it. -/
theorem Linked.tokens {as : List Applied} (h : Linked sm as sm') :
    (as.filterMap Applied.token?).Pairwise (· < ·) ∧
      ∀ t ∈ as.filterMap Applied.token?, sm.fencingTokenCounter < t := by
  induction h with
  | nil _ => simp
  | @cons sm sm' a as same leaf rest ih =>
    obtain ⟨hle, htoken⟩ := leaf.token
    have hsame : a.before.fencingTokenCounter = sm.fencingTokenCounter := by rw [same]
    cases hnew : a.token? with
    | none =>
      rw [List.filterMap_cons_none hnew]
      exact ⟨ih.1, fun t ht => by have := ih.2 t ht; omega⟩
    | some t₀ =>
      obtain ⟨hlt, heq⟩ := htoken t₀ hnew
      rw [List.filterMap_cons_some hnew]
      refine ⟨List.pairwise_cons.mpr ⟨fun t ht => ?_, ih.1⟩, fun t ht => ?_⟩
      · have := ih.2 t ht
        omega
      · rcases List.mem_cons.mp ht with rfl | ht
        · omega
        · have := ih.2 t ht
          omega

/-! ### Keeping a lease -/

/-- A lease as its holder knows it: granted or renewed with a token, until it runs out. -/
structure Lease where
  resource : String
  holder : String
  token : Int
  expiry : Rat
deriving DecidableEq

namespace Applied

variable (a : Applied)

/-- The lease a `LOCK_ACQUIRE` grants or renews. -/
def lease? : Option Lease :=
  match a.entry.commandType, a.result, a.entry.ttlSeconds with
  | .lockAcquire, .ok (.lock ⟨true, resource, some token, some holder, _⟩), .ok ttl =>
    some ⟨resource, holder, token, a.now + ttl⟩
  | _, _, _ => none

def Acquires (resource : String) : Prop :=
  a.entry.commandType = .lockAcquire ∧ a.entry.resource = resource
deriving Decidable

def Releases (resource : String) : Prop :=
  a.entry.commandType = .lockRelease ∧ a.entry.resource = resource
deriving Decidable

/-- The command ends the lease: its holder releases it, or it has run out when somebody asks for the
resource. -/
def Ends (lease : Lease) : Prop :=
  a.Releases lease.resource ∧ a.entry.clientId = some lease.holder ∧ a.returnsTrue = true ∨
    a.Acquires lease.resource ∧ lease.expiry < a.now
deriving Decidable

/-- The lease after the command: the holder may have renewed it. -/
def extend (lease : Lease) : Lease :=
  match a.lease? with
  | some l => if l.resource = lease.resource ∧ l.holder = lease.holder then l else lease
  | none => lease

/-- The command does not get the resource: it is refused, or raises. -/
def Refused : Prop :=
  (∃ err, a.result = .error err) ∨
    ∃ r : LockAcquireResult, a.result = .ok (.lock r) ∧ r.acquired = false

end Applied

def Keeps : Lease → List Applied → Prop
  | _, [] => True
  | lease, a :: as => ¬ a.Ends lease ∧ Keeps (a.extend lease) as

instance Keeps.decidable : ∀ lease as, Decidable (Keeps lease as)
  | _, [] => .isTrue trivial
  | lease, a :: as =>
    have := Keeps.decidable (a.extend lease) as
    inferInstanceAs (Decidable (¬ a.Ends lease ∧ Keeps (a.extend lease) as))

def Holds (lease : Lease) (sm : ReplicatedStateMachine) : Prop :=
  ∃ l, sm.locks.get? lease.resource = some l ∧ l.holderId = lease.holder ∧
    l.fencingToken = lease.token ∧ l.acquiredAt + l.ttlSeconds = lease.expiry

theorem Holds.of_sameBut (h : SameBut sm sm') (hold : Holds lease sm) : Holds lease sm' := by
  rwa [h]

theorem Applied.Leaf.holds (h : a.Leaf) (hlease : a.lease? = some lease) :
    Holds lease a.after ∧ a.Acquires lease.resource ∧ a.entry.holder = lease.holder := by
  have hk : a.entry.commandType = .lockAcquire := by
    unfold Applied.lease? at hlease
    split at hlease
    · assumption
    · simp at hlease
  cases h.acquireMove hk with
  | raises _ _ hres | refuses _ _ _ _ _ hres => simp [Applied.lease?, hk, hres] at hlease
  | grants ttl httl _ hafter hres =>
    simp only [Applied.lease?, hk, hres, httl, Option.some.injEq] at hlease
    subst hlease
    refine ⟨⟨⟨a.entry.resource, _, _, a.now, ttl⟩, ?_, rfl, rfl, rfl⟩, ⟨hk, rfl⟩, rfl⟩
    rw [hafter]
    exact Dict.get?_insert_self _ _ _
  | renews ttl httl l hheld hlive hown hafter hres =>
    simp only [Applied.lease?, hk, hres, httl, Option.some.injEq] at hlease
    subst hlease
    refine ⟨⟨{ l with acquiredAt := a.now, ttlSeconds := ttl }, ?_, hown, rfl, rfl⟩, ⟨hk, rfl⟩, rfl⟩
    rw [hafter]
    exact Dict.get?_insert_self _ _ _

theorem Holds.of_get?_eq (hold : Holds lease sm)
    (h : sm'.locks.get? lease.resource = sm.locks.get? lease.resource) : Holds lease sm' := by
  rwa [Holds, h]

theorem Applied.lease?_eq_none (hk : a.entry.commandType ≠ .lockAcquire) : a.lease? = none := by
  unfold Applied.lease?
  split
  · contradiction
  · rfl

theorem Applied.extend_of_none (h : a.lease? = none) (lease : Lease) : a.extend lease = lease := by
  rw [Applied.extend, h]

/-- What a command does to a lease that it does not end. -/
structure Extends (lease lease' : Lease) : Prop where
  resource : lease'.resource = lease.resource
  holder : lease'.holder = lease.holder
  token : lease'.token = lease.token

theorem Extends.refl (lease : Lease) : Extends lease lease := ⟨rfl, rfl, rfl⟩

theorem Holds.acquire (hold : Holds lease a.before) (h : a.Leaf)
    (hk : a.Acquires lease.resource) (hlive : a.now ≤ lease.expiry) :
    (a.Refused ∧ a.lease? = none ∧ a.after.locks = a.before.locks) ∨
      a.entry.holder = lease.holder ∧ ∃ expiry,
        a.lease? = some ⟨lease.resource, lease.holder, lease.token, expiry⟩ := by
  obtain ⟨l, hget, hholder, htoken, hexpiry⟩ := hold
  have hl : l.isExpired a.now = false := by
    simp only [DistributedLock.isExpired, hexpiry, gt_iff_lt, decide_eq_false_iff_not, not_lt]
    exact hlive
  have hget' : a.before.counted.locks.get? a.entry.resource = some l := by
    rwa [hk.2]
  cases h.acquireMove hk.1 with
  | raises err hafter hres =>
    exact Or.inl ⟨Or.inl ⟨err, hres⟩, by simp [Applied.lease?, hk.1, hres], by rw [hafter]; rfl⟩
  | grants ttl httl hfree => simp [hfree l hget'] at hl
  | renews ttl httl l' hheld hlive' hown hafter hres =>
    rw [hget', Option.some.injEq] at hheld
    subst hheld
    refine Or.inr ⟨hown ▸ hholder, a.now + ttl, ?_⟩
    simp only [Applied.lease?, hk.1, hres, httl]
    rw [hk.2, htoken, ← hown, hholder]
  | refuses l' hheld hlive' hother hafter hres =>
    exact Or.inl ⟨Or.inr ⟨_, hres, rfl⟩, by simp [Applied.lease?, hk.1, hres], by rw [hafter]; rfl⟩

theorem Holds.release (hold : Holds lease a.before) (h : a.Leaf)
    (hk : a.Releases lease.resource) (hclient : a.entry.clientId ≠ none) :
    a.after.locks = a.before.locks ∨ a.entry.clientId = some lease.holder ∧ a.returnsTrue = true := by
  obtain ⟨l, hget, hholder, -, -⟩ := hold
  have hget' : a.before.counted.locks.get? a.entry.resource = some l := by
    rwa [hk.2]
  cases h.releaseMove hk.1 with
  | raises _ hafter | refuses _ _ hafter => exact Or.inl (by rw [hafter]; rfl)
  | absent hfree => simp [hget'] at hfree
  | frees l' hheld hown _ hres =>
    rw [hget', Option.some.injEq] at hheld
    subst hheld
    obtain ⟨c, hc⟩ := Option.ne_none_iff_exists'.mp hclient
    refine Or.inr ⟨by rw [hc, ← hown c hc, hholder], ?_⟩
    rw [Applied.returnsTrue, hres]
    rfl

theorem Applied.Leaf.get?_eq (h : a.Leaf) {resource : String} (hother : a.entry.resource ≠ resource) :
    a.after.locks.get? resource = a.before.locks.get? resource := by
  by_cases hacquire : a.entry.commandType = .lockAcquire
  · cases h.acquireMove hacquire with
    | raises _ hafter | refuses _ _ _ _ hafter => rw [hafter]; rfl
    | grants _ _ _ hafter | renews _ _ _ _ _ _ hafter =>
      rw [hafter]
      exact (Dict.get?_insert _ _ _ _).trans (if_neg (Ne.symm hother))
  by_cases hrelease : a.entry.commandType = .lockRelease
  · cases h.releaseMove hrelease with
    | raises _ hafter | absent _ hafter | refuses _ _ hafter => rw [hafter]; rfl
    | frees _ _ _ hafter =>
      rw [hafter]
      exact (Dict.get?_erase _ _ _).trans (if_neg (Ne.symm hother))
  rw [h.locks_eq hacquire hrelease]

/-- **One command**: a lease that is not ended stays on record, with its holder and its token. -/
theorem Holds.step (hold : Holds lease a.before) (h : a.Leaf)
    (hclient : a.entry.commandType = .lockRelease → a.entry.clientId ≠ none) (hends : ¬ a.Ends lease) :
    Holds (a.extend lease) a.after ∧ Extends lease (a.extend lease) := by
  rw [Applied.Ends, not_or] at hends
  have hkeep : a.lease? = none → a.after.locks.get? lease.resource =
      a.before.locks.get? lease.resource →
      Holds (a.extend lease) a.after ∧ Extends lease (a.extend lease) := by
    intro hnone hsame
    rw [Applied.extend_of_none hnone]
    exact ⟨hold.of_get?_eq hsame, Extends.refl lease⟩
  by_cases hacquire : a.entry.commandType = .lockAcquire
  · by_cases hres : a.entry.resource = lease.resource
    · have hlive : a.now ≤ lease.expiry := by
        by_contra hlt
        exact hends.2 ⟨⟨hacquire, hres⟩, not_le.mp hlt⟩
      rcases hold.acquire h ⟨hacquire, hres⟩ hlive with ⟨-, hnone, hsame⟩ | ⟨-, expiry, hsome⟩
      · exact hkeep hnone (by rw [hsame])
      · have hext : a.extend lease = ⟨lease.resource, lease.holder, lease.token, expiry⟩ := by
          rw [Applied.extend, hsome]
          simp
        rw [hext]
        exact ⟨(h.holds hsome).1, rfl, rfl, rfl⟩
    · cases hl : a.lease? with
      | none => exact hkeep hl (h.get?_eq hres)
      | some l =>
        have hne : l.resource ≠ lease.resource := by
          rwa [← (h.holds hl).2.1.2]
        have hext : a.extend lease = lease := by
          rw [Applied.extend, hl]
          simp [hne]
        rw [hext]
        exact ⟨hold.of_get?_eq (h.get?_eq hres), Extends.refl lease⟩
  · apply hkeep (Applied.lease?_eq_none hacquire)
    by_cases hrelease : a.entry.commandType = .lockRelease
    · by_cases hres : a.entry.resource = lease.resource
      · rcases hold.release h ⟨hrelease, hres⟩ (hclient hrelease) with hsame | ⟨hc, htrue⟩
        · rw [hsame]
        · exact absurd ⟨⟨hrelease, hres⟩, hc, htrue⟩ hends.1
      · exact h.get?_eq hres
    · rw [h.locks_eq hacquire hrelease]

theorem Holds.run {as : List Applied} (hlink : Linked sm as sm') (hold : Holds lease sm)
    (hclient : ∀ a ∈ as, a.entry.commandType = .lockRelease → a.entry.clientId ≠ none) (hkeeps : Keeps lease as) :
    Holds (as.foldl (fun l a => a.extend l) lease) sm' ∧ Extends lease (as.foldl (fun l a => a.extend l) lease) := by
  induction hlink generalizing lease with
  | nil same => exact ⟨hold.of_sameBut same, Extends.refl lease⟩
  | @cons sm sm' a as same leaf rest ih =>
    obtain ⟨hold', hext⟩ := (hold.of_sameBut same).step leaf (hclient a List.mem_cons_self) hkeeps.1
    obtain ⟨hend, hext'⟩ := ih hold' (fun b hb => hclient b (List.mem_cons_of_mem _ hb)) hkeeps.2
    exact ⟨hend, hext'.resource.trans hext.resource, hext'.holder.trans hext.holder,
      hext'.token.trans hext.token⟩

theorem keeps_append {as bs : List Applied} :
    Keeps lease (as ++ bs) ↔ Keeps lease as ∧ Keeps (as.foldl (fun l a => a.extend l) lease) bs := by
  induction as generalizing lease with
  | nil => simp [Keeps]
  | cons a as ih =>
    rw [List.cons_append, Keeps, Keeps, ih, List.foldl_cons, and_assoc]

/-- **Mutual exclusion and fencing**, over every history in which each `LOCK_RELEASE` names its
client. Tokens handed out increase. After `g` has granted or renewed a lease, and as long as no
command ends it, the next command `a` on the resource is refused if another client asks for it, keeps
the token if the holder renews, and leaves the lease in place if anybody else releases. -/
theorem lock_mutual_exclusion (clock : Clock) (entries : List LogEntry)
    (hclient : ∀ a ∈ historyAll clock entries empty, a.entry.commandType = .lockRelease →
      a.entry.clientId ≠ none) :
    ((historyAll clock entries empty).filterMap Applied.token?).Pairwise (· < ·) ∧
    ∀ (pre : List Applied) (g : Applied) (mid : List Applied) (a : Applied) (post : List Applied)
        (lease : Lease), historyAll clock entries empty = pre ++ g :: (mid ++ a :: post) →
      g.lease? = some lease → Keeps lease (mid ++ [a]) →
      (a.Acquires lease.resource → a.entry.holder ≠ lease.holder → a.Refused) ∧
      (a.Acquires lease.resource → a.entry.holder = lease.holder →
        ∀ l, a.lease? = some l → l.token = lease.token) ∧
      (a.Releases lease.resource → a.entry.clientId ≠ some lease.holder →
        ∃ l, a.after.locks.get? lease.resource = some l ∧ l.holderId = lease.holder ∧
          l.fencingToken = lease.token) := by
  have hlink := linked_historyAll clock entries empty
  refine ⟨hlink.tokens.1, fun pre g mid a post lease hsplit hlease hkeeps => ?_⟩
  rw [hsplit] at hlink hclient
  -- the lease is on record right before the command
  obtain ⟨sm₁, -, hrest⟩ := hlink.of_append
  obtain ⟨hmid, hlast⟩ := keeps_append.mp hkeeps
  cases hrest with
  | cons _ gleaf hrest =>
    obtain ⟨sm₂, hbetween, htail⟩ := hrest.of_append
    obtain ⟨hold, hext⟩ := (gleaf.holds hlease).1.run hbetween
      (fun b hb => hclient b (by simp [hb])) hmid
    cases htail with
    | cons same aleaf _ =>
      have hold := hold.of_sameBut same
      have hclientA := hclient a (by simp)
      have hends := hlast.1
      generalize mid.foldl (fun l a => a.extend l) lease = lease' at hold hext hends
      rw [Applied.Ends, not_or] at hends
      rw [← hext.resource, ← hext.holder, ← hext.token]
      refine ⟨fun hacquire hother => ?_, fun hacquire hown l hl => ?_, fun hrelease hother => ?_⟩
      · have hlive : a.now ≤ lease'.expiry := not_lt.mp fun hlt => hends.2 ⟨hacquire, hlt⟩
        rcases hold.acquire aleaf hacquire hlive with ⟨hrefused, -⟩ | ⟨hsame, -⟩
        · exact hrefused
        · exact absurd hsame hother
      · have hlive : a.now ≤ lease'.expiry := not_lt.mp fun hlt => hends.2 ⟨hacquire, hlt⟩
        rcases hold.acquire aleaf hacquire hlive with ⟨-, hnone, -⟩ | ⟨-, expiry, hsome⟩
        · rw [hnone] at hl
          simp at hl
        · rw [hsome, Option.some.injEq] at hl
          rw [← hl]
      · rcases hold.release aleaf hrelease (hclientA hrelease.1) with hsame | ⟨hc, -⟩
        · obtain ⟨l, hget, hholder, htoken, -⟩ := hold
          exact ⟨l, hsame ▸ hget, hholder, htoken⟩
        · exact absurd hc hother

def lockEntry (commandType : RaftCommandType) (client : String) (timestamp : Rat) : LogEntry :=
  { index := 1, term := 1, commandType, key := some "r", value := .none, clientId := some client,
    timestamp, fencingToken := none, extraData := .dict [("ttl_seconds", .int 10)] }

def batchEntry (timestamp : Rat) (operations : List LogEntry) : LogEntry :=
  { index := 1, term := 1, commandType := .batch, key := none, value := .none, clientId := none,
    timestamp, fencingToken := none,
    extraData := .dict [("operations", .list (operations.map Value.entry))] }

def contested : List LogEntry :=
  [lockEntry .lockAcquire "A" 1,
    batchEntry 2 [lockEntry .lockRelease "B" 2, lockEntry .lockAcquire "B" 3]]

def contestedLease : Lease := ⟨"r", "A", 1, 11⟩

theorem contested_refused :
    ∃ g b a, historyAll (fun _ => 0) contested empty = [g, b, a] ∧ a.entry.clientId = some "B" ∧
      a.Refused := by
  have hlease : (historyAll (fun _ => 0) contested empty).map Applied.lease? =
      [some contestedLease, none, none] := by decide +kernel
  have hkeeps : Keeps contestedLease (historyAll (fun _ => 0) contested empty).tail := by
    decide +kernel
  have hlast : ∀ a ∈ (historyAll (fun _ => 0) contested empty).getLast?,
      a.Acquires "r" ∧ a.entry.clientId = some "B" ∧ a.entry.holder ≠ "A" := by decide +kernel
  have h := lock_mutual_exclusion (fun _ => 0) contested (by decide +kernel)
  obtain ⟨g, b, a, hsplit⟩ := List.length_eq_three.mp (by simpa using congrArg List.length hlease)
  rw [hsplit] at hlease hkeeps hlast
  simp only [List.map_cons, List.cons.injEq] at hlease
  obtain ⟨hacquires, hclient, hother⟩ := hlast a rfl
  exact ⟨g, b, a, hsplit, hclient,
    (h.2 [] g [b] a [] contestedLease hsplit hlease.1 hkeeps).1 hacquires hother⟩

end ReplicatedStateMachine

end MeshWeaver
