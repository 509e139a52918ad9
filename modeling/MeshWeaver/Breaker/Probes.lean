import MeshWeaver.Breaker.Guard

/-!
# How many probes run

A section that was let in before may still be running when the breaker becomes HALF_OPEN: if it ends then, its
outcome counts and it gives back a probe that it never took, and if it was a probe of an earlier period, one more
probe runs than was counted. Nothing of this happens if no section runs whenever a HALF_OPEN period starts; and if
one does, the run can go on so that it happens.
-/

namespace MeshWeaver

open Lib CircuitBreaker

/-- A section that was let in; a probe was let in while the breaker was HALF_OPEN. -/
structure GuardSection where
  probe : Bool
  running : Bool
deriving DecidableEq

/-- A breaker with the sections that it has let in. -/
structure GuardedBreaker where
  breaker : CircuitBreaker
  sections : List GuardSection

inductive GuardEvent where
  | enter (clock : Nat → Rat)
  | exit (number : Nat) (ended : SectionEnd) (clock : Nat → Rat)
  | read (clock : Nat → Rat)

namespace GuardedBreaker

def new (nodeIdHex : String) (config : CircuitBreakerConfig) (now : Rat) : GuardedBreaker :=
  ⟨.new nodeIdHex config now, []⟩

section Definitions

variable (s : GuardedBreaker)

def step : GuardEvent → GuardedBreaker
  | .enter clock =>
    match s.breaker.enter clock with
    | (breaker, .ok probe) => ⟨breaker, s.sections ++ [⟨probe, true⟩]⟩
    | (breaker, .error _) => ⟨breaker, s.sections⟩
  | .exit number ended clock =>
    match s.sections[number]? with
    | some ⟨probe, true⟩ => ⟨s.breaker.exit ended clock, s.sections.set number ⟨probe, false⟩⟩
    | _ => s
  | .read clock => ⟨s.breaker.evaluated (clock 0) (clock 1), s.sections⟩

def probes : Nat := s.sections.countP fun entry => entry.running && entry.probe

def Limited : Prop := s.breaker.stored = .halfOpen → s.probes ≤ s.breaker.config.probeConcurrency
deriving Decidable

/-- A success that counts towards `half_open_success_threshold` is that of a probe. -/
def CountsProbes : GuardEvent → Prop
  | .exit number .success clock => ∀ entry ∈ s.sections[number]?, entry.running = true →
      (s.breaker.evaluated (clock 0) (clock 1)).stored = .halfOpen → entry.probe = true
  | _ => True

instance (event : GuardEvent) : Decidable (s.CountsProbes event) :=
  match event with
  | .exit _ .success _ => inferInstanceAs (Decidable (∀ entry ∈ s.sections[_]?, _))
  | .exit _ .failure _ | .exit _ .interrupted _ | .enter _ | .read _ => .isTrue trivial

def Good (event : GuardEvent) : Prop := s.CountsProbes event ∧ (s.step event).Limited
deriving Decidable

/-- No section runs, except perhaps one. -/
def Quiet (but : Option Nat) : Prop :=
  ∀ number < s.sections.length, ∀ entry ∈ s.sections[number]?, entry.running = true → but = some number

instance (but : Option Nat) : Decidable (s.Quiet but) := inferInstanceAs (Decidable (∀ number < _, _))

/-- No section runs when a HALF_OPEN period starts, apart from the one whose end starts it; and the success that
starts a period is that of a probe. -/
def StartsClear : GuardEvent → Prop
  | .enter clock => s.breaker.Due (clock 0) ∨ s.breaker.Due (clock 2) → s.Quiet none
  | .exit number ended clock => ∀ entry ∈ s.sections[number]?, entry.running = true →
      (s.breaker.StartsPeriod ended clock → s.Quiet (some number)) ∧
        (ended = .success → s.breaker.Due (clock 0) → entry.probe = true)
  | .read clock => s.breaker.Due (clock 0) → s.Quiet none

instance (event : GuardEvent) : Decidable (s.StartsClear event) :=
  match event with
  | .enter _ => inferInstanceAs (Decidable (_ → _))
  | .exit _ _ _ => inferInstanceAs (Decidable (∀ entry ∈ s.sections[_]?, _))
  | .read _ => inferInstanceAs (Decidable (_ → _))

def running : Nat := s.sections.countP fun entry => entry.running

/-- What is true of a HALF_OPEN breaker if its period started clear: it knows who runs. -/
def Invariant : Prop :=
  s.breaker.stored = .halfOpen → (∀ entry ∈ s.sections, entry.running = true → entry.probe = true) ∧
    s.breaker.activeProbes = s.running ∧ s.running ≤ s.breaker.config.probeConcurrency

end Definitions

variable {s : GuardedBreaker} {event : GuardEvent}

theorem invariant_new (nodeIdHex : String) (config : CircuitBreakerConfig) (now : Rat) :
    (new nodeIdHex config now).Invariant := fun h => by cases h

theorem probes_le_running (s : GuardedBreaker) : s.probes ≤ s.running :=
  List.countP_mono_left fun _ _ h => (Bool.and_eq_true_iff.mp h).1

theorem running_eq_zero_iff : s.running = 0 ↔ s.Quiet none := by
  rw [running, List.countP_eq_zero]
  constructor
  · intro h number hnumber entry hentry hrunning
    exact absurd hrunning (h entry (List.mem_of_getElem? hentry))
  · intro h entry hmem hrunning
    obtain ⟨number, hnumber, rfl⟩ := List.mem_iff_getElem.mp hmem
    cases h number hnumber _ (List.getElem?_eq_getElem hnumber) hrunning

theorem invariant_of_quiet (hquiet : s.Quiet none) (hprobes : s.breaker.activeProbes = 0) : s.Invariant := by
  have hrunning := running_eq_zero_iff.mpr hquiet
  intro _
  refine ⟨fun entry hmem hentry => ?_, hprobes.trans hrunning.symm, by omega⟩
  exact absurd hentry (List.countP_eq_zero.mp hrunning entry hmem)

/-! ### The steps -/

theorem step_enter_cases (s : GuardedBreaker) (clock : Nat → Rat) :
    let read := s.breaker.evaluated (clock 0) (clock 1)
    read.stored = .closed ∧ s.step (.enter clock) = ⟨read, s.sections ++ [⟨false, true⟩]⟩ ∨
      (read.stored = .halfOpen ∧ read.activeProbes < read.config.probeConcurrency ∧
        s.step (.enter clock) = ⟨{ read with activeProbes := read.activeProbes + 1 }, s.sections ++ [⟨true, true⟩]⟩) ∨
      read.accepts = false ∧ s.step (.enter clock) = ⟨read.evaluated (clock 2) (clock 3), s.sections⟩ := by
  rcases s.breaker.enter_cases clock with ⟨hread, henter⟩ | ⟨hread, hroom, henter⟩ | ⟨hread, error, henter⟩
  · exact Or.inl ⟨hread, by rw [step, henter]⟩
  · exact Or.inr (Or.inl ⟨hread, hroom, by rw [step, henter]⟩)
  · exact Or.inr (Or.inr ⟨hread, by rw [step, henter]⟩)

theorem step_exit_cases (s : GuardedBreaker) (number : Nat) (ended : SectionEnd) (clock : Nat → Rat) :
    (∃ probe, s.sections[number]? = some ⟨probe, true⟩ ∧ s.step (.exit number ended clock) =
        ⟨s.breaker.exit ended clock, s.sections.set number ⟨probe, false⟩⟩) ∨
      (∀ entry ∈ s.sections[number]?, entry.running ≠ true) ∧ s.step (.exit number ended clock) = s := by
  rw [step]
  cases hentry : s.sections[number]? with
  | none => exact Or.inr ⟨fun entry hmem => absurd hmem (Option.not_mem_none entry), rfl⟩
  | some entry =>
    obtain ⟨probe, running⟩ := entry
    cases running with
    | true => exact Or.inl ⟨probe, rfl, rfl⟩
    | false => exact Or.inr ⟨fun entry hmem => Option.some_inj.mp hmem ▸ Bool.false_ne_true, rfl⟩

theorem running_set {number : Nat} {probe : Bool} (h : s.sections[number]? = some ⟨probe, true⟩)
    (breaker : CircuitBreaker) :
    (⟨breaker, s.sections.set number ⟨probe, false⟩⟩ : GuardedBreaker).running + 1 = s.running := by
  obtain ⟨hlt, hget⟩ := List.getElem?_eq_some_iff.mp h
  have hpos : 0 < s.sections.countP fun entry => entry.running :=
    List.countP_pos_iff.mpr ⟨_, List.getElem_mem hlt, by rw [hget]⟩
  rw [running, running, List.countP_set hlt, hget]
  simp only [if_true, Bool.false_eq_true, if_false]
  omega

theorem quiet_set {number : Nat} {probe : Bool} (h : s.Quiet (some number)) (breaker : CircuitBreaker) :
    (⟨breaker, s.sections.set number ⟨probe, false⟩⟩ : GuardedBreaker).Quiet none := by
  intro other hother entry hentry hrunning
  rw [List.length_set] at hother
  by_cases hsame : number = other
  · subst hsame
    rw [List.getElem?_set_self hother] at hentry
    cases hentry
    cases hrunning
  · rw [List.getElem?_set_ne hsame] at hentry
    exact absurd (Option.some_inj.mp (h other hother entry hentry hrunning)) hsame

theorem running_append (s : GuardedBreaker) (breaker : CircuitBreaker) (probe : Bool) :
    (⟨breaker, s.sections ++ [⟨probe, true⟩]⟩ : GuardedBreaker).running = s.running + 1 := by
  rw [running, List.countP_append]
  rfl

theorem probes_append (s : GuardedBreaker) (breaker : CircuitBreaker) :
    (⟨breaker, s.sections ++ [⟨true, true⟩]⟩ : GuardedBreaker).probes = s.probes + 1 := by
  rw [probes, List.countP_append]
  rfl

/-- **A step that starts clear** keeps what is true of a HALF_OPEN breaker. -/
theorem Invariant.step (h : s.Invariant) (hclear : s.StartsClear event) : (s.step event).Invariant := by
  cases event with
  | read clock =>
    by_cases hdue : s.breaker.Due (clock 0)
    · rw [GuardedBreaker.step, evaluated_of_due hdue]
      exact invariant_of_quiet (hclear hdue) rfl
    · rwa [GuardedBreaker.step, evaluated_of_not_due hdue]
  | exit number ended clock =>
    rcases step_exit_cases s number ended clock with ⟨probe, hentry, hstep⟩ | ⟨-, hstep⟩
    · rw [hstep]
      obtain ⟨hperiod, -⟩ := hclear _ hentry rfl
      obtain ⟨hstarts, hstays⟩ := s.breaker.exit_spec ended clock
      by_cases hnew : s.breaker.StartsPeriod ended clock
      · exact invariant_of_quiet (quiet_set (hperiod hnew) _) (hstarts hnew).2
      · intro hhalf
        obtain ⟨hbefore, hprobes⟩ := hstays hnew hhalf
        obtain ⟨hall, hcount, hroom⟩ := h hbefore
        have hrunning := running_set hentry (s.breaker.exit ended clock)
        refine ⟨fun entry hmem => ?_, ?_, ?_⟩
        · rcases List.mem_or_eq_of_mem_set hmem with hold | rfl
          · exact hall entry hold
          · exact fun hfalse => by cases hfalse
        · dsimp only
          omega
        · rw [config_exit]
          omega
    · rwa [hstep]
  | enter clock =>
    rcases step_enter_cases s clock with ⟨hread, hstep⟩ | ⟨hread, hroom, hstep⟩ | ⟨-, hstep⟩
    · rw [hstep]
      intro hhalf
      cases hread.symm.trans hhalf
    · rw [hstep]
      intro _
      rw [running_append]
      by_cases hdue : s.breaker.Due (clock 0)
      · have hnone := running_eq_zero_iff.mpr (hclear (Or.inl hdue))
        rw [evaluated_of_due hdue] at hroom ⊢
        refine ⟨fun entry hmem hentry => ?_, by rw [hnone]; rfl, by rw [hnone]; exact hroom⟩
        rcases List.mem_append.mp hmem with hold | hnew
        · exact absurd hentry (List.countP_eq_zero.mp hnone entry hold)
        · rw [List.mem_singleton.mp hnew]
      · rw [evaluated_of_not_due hdue] at hread hroom ⊢
        obtain ⟨hall, hcount, -⟩ := h hread
        refine ⟨fun entry hmem hentry => ?_, by rw [hcount], by dsimp only; omega⟩
        rcases List.mem_append.mp hmem with hold | hnew
        · exact hall entry hold hentry
        · rw [List.mem_singleton.mp hnew]
    · rw [hstep]
      obtain ⟨hstarts, hstays⟩ := s.breaker.evaluated_twice (clock 0) (clock 1) (clock 2) (clock 3)
      by_cases hdue : s.breaker.Due (clock 0) ∨ s.breaker.Due (clock 2)
      · exact invariant_of_quiet (hclear hdue) (hstarts hdue).2
      · rwa [hstays hdue]

theorem Invariant.countsProbes (h : s.Invariant) (hclear : s.StartsClear event) : s.CountsProbes event := by
  cases event with
  | exit number ended clock =>
    cases ended with
    | success =>
      intro entry hentry hrunning hhalf
      by_cases hdue : s.breaker.Due (clock 0)
      · exact (hclear entry hentry hrunning).2 rfl hdue
      · rw [evaluated_of_not_due hdue] at hhalf
        exact (h hhalf).1 entry (List.mem_of_getElem? hentry) hrunning
    | failure | interrupted => trivial
  | enter clock | read clock => trivial

theorem Invariant.along_good (h : s.Invariant) {events : List GuardEvent}
    (hclear : Along GuardedBreaker.step StartsClear s events) : Along GuardedBreaker.step Good s events :=
  Along.of_invariant (fun _ _ hinv hclear =>
    ⟨⟨hinv.countsProbes hclear, fun hhalf => (probes_le_running _).trans (hinv.step hclear hhalf).2.2⟩,
      hinv.step hclear⟩) h hclear

/-! ### A period that does not start clear -/

/-- A HALF_OPEN breaker beside which a section runs that is no probe, or more probes than it knows of. -/
def Stray (s : GuardedBreaker) : Prop :=
  s.breaker.stored = .halfOpen ∧
    ((∃ entry ∈ s.sections, entry.running = true ∧ entry.probe = false) ∨ s.breaker.activeProbes < s.probes)

theorem stray_of_running (hhalf : s.breaker.stored = .halfOpen) (hnone : s.breaker.activeProbes = 0)
    {entry : GuardSection} (hmem : entry ∈ s.sections) (hrunning : entry.running = true) : s.Stray := by
  refine ⟨hhalf, ?_⟩
  cases hprobe : entry.probe with
  | false => exact Or.inl ⟨entry, hmem, hrunning, hprobe⟩
  | true =>
    refine Or.inr ?_
    rw [hnone]
    exact List.countP_pos_iff.mpr ⟨entry, hmem, by rw [hrunning, hprobe]; rfl⟩

theorem exists_running_of_not_quiet {but : Option Nat} (h : ¬ s.Quiet but) :
    ∃ (number : Nat) (entry : GuardSection), s.sections[number]? = some entry ∧ entry.running = true ∧
      but ≠ some number := by
  rw [Quiet] at h
  push Not at h
  obtain ⟨number, -, entry, hentry, hrunning, hother⟩ := h
  exact ⟨number, entry, hentry, hrunning, hother⟩

/-- **A step that does not start clear** counts what is no probe, or leaves a section astray. -/
theorem countsProbes_or_stray (h : ¬ s.StartsClear event) : ¬ s.CountsProbes event ∨ (s.step event).Stray := by
  cases event with
  | read clock =>
    rw [StartsClear, Classical.not_imp] at h
    obtain ⟨number, entry, hentry, hrunning, -⟩ := exists_running_of_not_quiet h.2
    rw [step, evaluated_of_due h.1]
    exact Or.inr (stray_of_running (by simp) (by simp) (List.mem_of_getElem? hentry) hrunning)
  | enter clock =>
    rw [StartsClear, Classical.not_imp] at h
    obtain ⟨number, entry, hentry, hrunning, -⟩ := exists_running_of_not_quiet h.2
    have hmem := List.mem_of_getElem? hentry
    refine Or.inr ?_
    rcases step_enter_cases s clock with ⟨hread, hstep⟩ | ⟨hread, -, hstep⟩ | ⟨-, hstep⟩
    · -- an OPEN breaker is not read as CLOSED
      by_cases hdue : s.breaker.Due (clock 0)
      · rw [evaluated_of_due hdue] at hread
        cases hread
      · rw [evaluated_of_not_due hdue, (h.1.resolve_left hdue).1] at hread
        cases hread
    · by_cases hdue : s.breaker.Due (clock 0)
      · rw [hstep, evaluated_of_due hdue]
        refine ⟨rfl, ?_⟩
        cases hprobe : entry.probe with
        | false => exact Or.inl ⟨entry, List.mem_append_left _ hmem, hrunning, hprobe⟩
        | true =>
          have hpos : 0 < s.probes := List.countP_pos_iff.mpr ⟨entry, hmem, by rw [hrunning, hprobe]; rfl⟩
          rw [probes_append, activeProbes_transitionTo]
          dsimp only
          omega
      · rw [evaluated_of_not_due hdue, (h.1.resolve_left hdue).1] at hread
        cases hread
    · obtain ⟨hhalf, hnone⟩ := (s.breaker.evaluated_twice _ _ _ _).1 h.1
      rw [hstep]
      exact stray_of_running hhalf hnone hmem hrunning
  | exit number ended clock =>
    rcases step_exit_cases s number ended clock with ⟨probe, hentry, hstep⟩ | ⟨hidle, -⟩
    · by_cases hperiod : s.breaker.StartsPeriod ended clock → s.Quiet (some number)
      · refine Or.inl fun hcounts => h fun entry hmem hrunning => ⟨hperiod, ?_⟩
        rintro rfl hdue
        refine hcounts entry hmem hrunning ?_
        rw [evaluated_of_due hdue, stored_transitionTo]
      · rw [Classical.not_imp] at hperiod
        obtain ⟨other, entry, hother, hrunning, hne⟩ := exists_running_of_not_quiet hperiod.2
        have hstill : (s.sections.set number ⟨probe, false⟩)[other]? = some entry := by
          rw [List.getElem?_set_ne fun hsame => hne (congrArg some hsame), hother]
        obtain ⟨hhalf, hnone⟩ := (s.breaker.exit_spec ended clock).1 hperiod.1
        rw [hstep]
        exact Or.inr (stray_of_running hhalf hnone (List.mem_of_getElem? hstill) hrunning)
    · exact absurd (fun entry hentry hrunning => absurd hrunning (hidle entry hentry)) h

theorem step_enter_halfOpen (hhalf : s.breaker.stored = .halfOpen)
    (hroom : s.breaker.activeProbes < s.breaker.config.probeConcurrency) (clock : Nat → Rat) :
    s.StartsClear (.enter clock) ∧ s.step (.enter clock) =
      ⟨{ s.breaker with activeProbes := s.breaker.activeProbes + 1 }, s.sections ++ [⟨true, true⟩]⟩ := by
  have hnever : ∀ now, ¬ s.breaker.Due now := not_due_of_ne (by rw [hhalf]; decide)
  refine ⟨fun hdue => absurd hdue (not_or_intro (hnever _) (hnever _)), ?_⟩
  rcases step_enter_cases s clock with ⟨hread, -⟩ | ⟨-, -, hstep⟩ | ⟨hrefused, -⟩
  · rw [evaluated_of_not_due (hnever _), hhalf] at hread
    cases hread
  · rwa [evaluated_of_not_due (hnever _)] at hstep
  · rw [evaluated_of_not_due (hnever _), accepts, hhalf] at hrefused
    exact absurd hroom (of_decide_eq_false hrefused)

theorem exceeds_of_stray (hhalf : s.breaker.stored = .halfOpen) (hmore : s.breaker.activeProbes < s.probes) :
    ∃ more, Along step StartsClear s more ∧ (¬ s.Limited ∨ ¬ Along step Good s more) := by
  -- on the number of probes that the breaker still has to spare
  induction hspare : s.breaker.config.probeConcurrency - s.breaker.activeProbes generalizing s with
  | zero => exact ⟨[], trivial, Or.inl fun hlimited => by have := hlimited hhalf; omega⟩
  | succ spare ih =>
    obtain ⟨hclear, hstep⟩ := step_enter_halfOpen hhalf (by omega) fun _ => 0
    obtain ⟨more, hmoreClear, hbad⟩ := ih (s := s.step (.enter fun _ => 0)) (by rw [hstep]; exact hhalf)
      (by rw [hstep, probes_append]; dsimp only; omega) (by rw [hstep]; dsimp only; omega)
    refine ⟨.enter (fun _ => 0) :: more, ⟨hclear, hmoreClear⟩, Or.inr fun hgood => ?_⟩
    exact hbad.elim (fun hnot => hnot hgood.1.2) fun hnot => hnot hgood.2

/-- **What is astray spoils the run**, without another period that does not start clear. -/
theorem Stray.spoils (h : s.Stray) :
    ∃ more, Along step StartsClear s more ∧ (¬ s.Limited ∨ ¬ Along step Good s more) := by
  obtain ⟨hhalf, ⟨entry, hmem, hrunning, hprobe⟩ | hmore⟩ := h
  · obtain ⟨number, hentry⟩ := List.mem_iff_getElem?.mp hmem
    have hnever : ∀ now, ¬ s.breaker.Due now := not_due_of_ne (by rw [hhalf]; decide)
    have hclear : s.StartsClear (.exit number .success fun _ => 0) := fun _ _ _ =>
      ⟨fun hstarts => absurd hstarts (not_startsPeriod_success hhalf _), fun _ hdue =>
        absurd hdue (hnever _)⟩
    refine ⟨[.exit number .success fun _ => 0], ⟨hclear, trivial⟩, Or.inr fun hgood => ?_⟩
    have hcounted := hgood.1.1 entry hentry hrunning
      (by rw [evaluated_of_not_due (hnever _)]; exact hhalf)
    rw [hprobe] at hcounted
    cases hcounted
  · exact exceeds_of_stray hhalf hmore

/-- **The probes of a breaker.** In every run in which no section runs when a HALF_OPEN period starts, at most
`probe_concurrency` probes run while the breaker is HALF_OPEN and only their successes count; and at every point
of such a run, an event leaves this true of all ways in which the run can go on, if and only if no section runs
when it starts a period. -/
theorem probes_limited_iff (nodeIdHex : String) (config : CircuitBreakerConfig) (now : Rat)
    {events : List GuardEvent} (hclear : Along step StartsClear (new nodeIdHex config now) events) :
    Along step Good (new nodeIdHex config now) events ∧
      ∀ event, (run step (new nodeIdHex config now) events).StartsClear event ↔
        ∀ more, Along step StartsClear (run step (new nodeIdHex config now) (events ++ [event])) more →
          Along step Good (new nodeIdHex config now) (events ++ event :: more) := by
  have hnew := invariant_new nodeIdHex config now
  have hinvariant : (run step (new nodeIdHex config now) events).Invariant :=
    Along.invariant (fun _ _ h => h.step) hnew hclear
  have hgood := hnew.along_good hclear
  refine ⟨hgood, fun event => ⟨fun hevent more hmore => ?_, fun hall => ?_⟩⟩
  · rw [Lib.run_append] at hmore
    exact hgood.append (hinvariant.along_good ⟨hevent, hmore⟩)
  · by_contra hnot
    rw [Lib.run_append] at hall
    have hgoesOn := fun more hmore => (hall more hmore).of_append_right
    rcases countsProbes_or_stray hnot with hcounts | hstray
    · exact hcounts (hgoesOn [] trivial).1.1
    · obtain ⟨more, hmore, hbad⟩ := hstray.spoils
      exact hbad.elim (fun hlimited => hlimited (hgoesOn [] trivial).1.2) fun hbad => hbad (hgoesOn more hmore).2

def probed : List GuardEvent :=
  [.enter fun _ => 0, .exit 0 .failure fun _ => 1, .enter fun _ => 7, .exit 1 .success fun _ => 8,
    .enter fun _ => 9]

theorem probes_limited_probed :
    let config : CircuitBreakerConfig := { failureThreshold := 1 }
    (run step (new "w" config 0) probed).probes = 1 ∧ Along step Good (new "w" config 0) probed := by
  intro config
  exact ⟨by decide +kernel, (probes_limited_iff "w" config 0 (by decide +kernel)).1⟩

/-- Two sections are let in while the breaker is CLOSED. One of them fails, and a probe is let in; the other one
returns, and a second probe is let in. -/
def overlapping : List GuardEvent :=
  [.enter fun _ => 0, .enter fun _ => 0, .exit 1 .failure fun _ => 1, .enter fun _ => 7, .exit 0 .success fun _ => 8,
    .enter fun _ => 8]

/-- **Two probes run although one is allowed**, and a success counts that is not that of a probe. -/
theorem probes_not_limited :
    let config : CircuitBreakerConfig := { failureThreshold := 1 }
    let s := run step (new "w" config 0) overlapping
    s.breaker.stored = .halfOpen ∧ s.probes = 2 ∧ config.probeConcurrency = 1 ∧ s.breaker.successCount = 1 ∧
      ¬ Along step CountsProbes (new "w" config 0) overlapping ∧
      ¬ Along step Good (new "w" config 0) overlapping := by
  decide +kernel

end GuardedBreaker

end MeshWeaver
