import Mathlib.Data.List.Basic

/-!
# Runs of a deterministic system

A system is a step function `step : σ → ε → σ`, and `run step s es` the state in which the events `es` end.
`Along step P s es` says that every event is taken in a state in which `P` holds of the state and the event.
`Along.invariant` is the induction principle: an invariant that each step meeting `P` preserves holds at the end of
every run along `P`.
-/

namespace MeshWeaver.Lib

variable {σ ε : Type}

/-- The state after the events `es`, from `s`. -/
def run (step : σ → ε → σ) (s : σ) (es : List ε) : σ := es.foldl step s

variable (step : σ → ε → σ)

@[simp] theorem run_nil (s : σ) : run step s [] = s := rfl

@[simp] theorem run_cons (s : σ) (e : ε) (es : List ε) : run step s (e :: es) = run step (step s e) es := rfl

theorem run_append (s : σ) (es fs : List ε) : run step s (es ++ fs) = run step (run step s es) fs := List.foldl_append

/-- Every event of the run is taken in a state where `P` holds. -/
def Along (step : σ → ε → σ) (P : σ → ε → Prop) : σ → List ε → Prop
  | _, [] => True
  | s, e :: es => P s e ∧ Along step P (step s e) es

instance Along.decidable (step : σ → ε → σ) (P : σ → ε → Prop) [∀ s e, Decidable (P s e)] :
    ∀ s es, Decidable (Along step P s es)
  | _, [] => .isTrue trivial
  | s, e :: es =>
    have := Along.decidable step P (step s e) es
    inferInstanceAs (Decidable (P s e ∧ Along step P (step s e) es))

namespace Along

variable {step : σ → ε → σ} {P Q : σ → ε → Prop} {s : σ} {I : σ → Prop}

theorem mono (h : ∀ s e, P s e → Q s e) : ∀ {es : List ε} {s : σ}, Along step P s es →
    Along step Q s es
  | [], _, _ => trivial
  | _ :: _, _, ⟨hp, hrest⟩ => ⟨h _ _ hp, mono h hrest⟩

theorem of_forall : ∀ {es : List ε}, (∀ e ∈ es, ∀ s, P s e) → ∀ s, Along step P s es
  | [], _, _ => trivial
  | _ :: _, h, s => ⟨h _ List.mem_cons_self s, of_forall (fun e he => h e (List.mem_cons_of_mem _ he)) _⟩

/-- **The invariant rule**: what every step along `P` preserves holds at the end of the run. -/
theorem invariant (hstep : ∀ s e, I s → P s e → I (step s e)) (hs : I s) :
    ∀ {es : List ε}, Along step P s es → I (run step s es) := by
  intro es
  induction es generalizing s with
  | nil => intro _; exact hs
  | cons e es ih =>
    rintro ⟨hp, hrest⟩
    exact ih (hstep s e hs hp) hrest

theorem of_invariant (hstep : ∀ s e, I s → P s e → Q s e ∧ I (step s e))
    (hs : I s) : ∀ {es : List ε}, Along step P s es → Along step Q s es := by
  intro es
  induction es generalizing s with
  | nil => exact id
  | cons e es ih =>
    rintro ⟨hp, hrest⟩
    obtain ⟨hq, hnext⟩ := hstep s e hs hp
    exact ⟨hq, ih hnext hrest⟩

theorem of_append_right {es fs : List ε} (h : Along step P s (es ++ fs)) : Along step P (run step s es) fs := by
  induction es generalizing s with
  | nil => exact h
  | cons e es ih => exact ih h.2

theorem of_append_left {es fs : List ε} (h : Along step P s (es ++ fs)) : Along step P s es := by
  induction es generalizing s with
  | nil => trivial
  | cons e es ih => exact ⟨h.1, ih h.2⟩

theorem append {es fs : List ε} (h : Along step P s es) (h' : Along step P (run step s es) fs) :
    Along step P s (es ++ fs) := by
  induction es generalizing s with
  | nil => exact h'
  | cons e es ih => exact ⟨h.1, ih h.2 h'⟩

theorem last {es : List ε} {e : ε} (h : Along step P s (es ++ [e])) : P (run step s es) e :=
  h.of_append_right.1

theorem and {es : List ε} (hp : Along step P s es) (hq : Along step Q s es) :
    Along step (fun s e => P s e ∧ Q s e) s es := by
  induction es generalizing s with
  | nil => trivial
  | cons e es ih => exact ⟨⟨hp.1, hq.1⟩, ih hp.2 hq.2⟩

theorem congr_of_invariant {R : σ → ε → Prop}
    (hstep : ∀ s e, I s → R s e → (P s e ↔ Q s e) ∧ (P s e → I (step s e))) (hs : I s)
    {es : List ε} (hr : Along step R s es) : Along step P s es ↔ Along step Q s es := by
  induction es generalizing s with
  | nil => exact Iff.rfl
  | cons e es ih =>
    obtain ⟨hiff, hnext⟩ := hstep s e hs hr.1
    rw [Along, Along, ← hiff]
    exact and_congr_right fun hp => ih (hnext hp) hr.2

end Along

variable {step : σ → ε → σ} {es : List ε} {s : σ} {τ : Type}

theorem forall_run_take_iff {P : σ → Prop} :
    (∀ n, P (run step s (es.take n))) ↔ P s ∧ Along step (fun s e => P (step s e)) s es := by
  induction es generalizing s with
  | nil =>
    simp only [List.take_nil, run_nil, Along, and_true]
    exact ⟨fun h => h 0, fun h _ => h⟩
  | cons e es ih =>
    have hrest := ih (s := step s e)
    constructor
    · intro h
      exact ⟨h 0, hrest.mp fun n => h (n + 1)⟩
    · rintro ⟨hs, hall⟩ n
      cases n with
      | zero => exact hs
      | succ n => exact hrest.mpr hall n

/-- What the steps of a run emit, in order. -/
def emitted {τ : Type} (step : σ → ε → σ) (emit : σ → ε → List τ) : σ → List ε → List τ
  | _, [] => []
  | s, e :: es => emit s e ++ emitted step emit (step s e) es

theorem emitted_concat (emit : σ → ε → List τ) (s : σ) (es : List ε) (e : ε) :
    emitted step emit s (es ++ [e]) = emitted step emit s es ++ emit (run step s es) e := by
  induction es generalizing s with
  | nil => rw [List.nil_append, emitted, emitted, emitted, List.append_nil, List.nil_append, run_nil]
  | cons e' es ih => rw [List.cons_append, emitted, emitted, ih, List.append_assoc, run_cons]

theorem emitted_invariant {emit : σ → ε → List τ} {I : σ → List τ → Prop}
    (hstep : ∀ e ∈ es, ∀ s out, I s out → I (step s e) (out ++ emit s e)) {out : List τ}
    (hs : I s out) : I (run step s es) (out ++ emitted step emit s es) := by
  induction es generalizing s out with
  | nil => rwa [emitted, List.append_nil]
  | cons e es ih =>
    rw [emitted, ← List.append_assoc]
    exact ih (fun e he => hstep e (List.mem_cons_of_mem _ he)) (hstep e List.mem_cons_self s out hs)

theorem Along.invariant_emitted {P : σ → ε → Prop} (emit : σ → ε → List τ) (I : σ → List τ → Prop)
    (hstep : ∀ s e out, I s out → P s e → I (step s e) (out ++ emit s e))
    {out : List τ} (hs : I s out) (h : Along step P s es) : I (run step s es) (out ++ emitted step emit s es) := by
  induction es generalizing s out with
  | nil => rwa [emitted, List.append_nil]
  | cons e es ih =>
    rw [emitted, ← List.append_assoc]
    exact ih (hstep s e out hs h.1) h.2

/-- **The rule of the point of no return.** If a step along `P` keeps a state good, one against `P` spoils
it, and a spoilt state stays spoilt, then runs along `P` end well and all others end badly. -/
theorem Along.good_or_spoilt {P : σ → ε → Prop} {emit : σ → ε → List τ} (Good Spoilt : σ → List τ → Prop)
    (hgood : ∀ e ∈ es, ∀ s out, Good s out → P s e → Good (step s e) (out ++ emit s e))
    (hspoils : ∀ e ∈ es, ∀ s out, Good s out → ¬ P s e → Spoilt (step s e) (out ++ emit s e))
    (hstays : ∀ e ∈ es, ∀ s out, Spoilt s out → Spoilt (step s e) (out ++ emit s e))
    {out : List τ} (hs : Good s out) :
    Along step P s es ∧ Good (run step s es) (out ++ emitted step emit s es) ∨
      ¬ Along step P s es ∧ Spoilt (run step s es) (out ++ emitted step emit s es) := by
  induction es generalizing s out with
  | nil =>
    rw [emitted, List.append_nil]
    exact Or.inl ⟨trivial, hs⟩
  | cons e es ih =>
    have htail := fun e (he : e ∈ es) => hstays e (List.mem_cons_of_mem _ he)
    rw [emitted, ← List.append_assoc, run_cons]
    by_cases hp : P s e
    · have hrest := ih (fun e he => hgood e (List.mem_cons_of_mem _ he))
        (fun e he => hspoils e (List.mem_cons_of_mem _ he)) htail
        (hgood e List.mem_cons_self s out hs hp)
      exact hrest.imp (And.imp_left fun h => ⟨hp, h⟩) (And.imp_left fun h hall => h hall.2)
    · exact Or.inr ⟨fun h => hp h.1,
        emitted_invariant htail (hspoils e List.mem_cons_self s out hs hp)⟩

theorem run_invariant {I : σ → Prop} (hstep : ∀ s e, I s → I (step s e))
    (hs : I s) (es : List ε) : I (run step s es) := by
  induction es generalizing s with
  | nil => exact hs
  | cons e es ih => exact ih (hstep s e hs)

theorem foldlM_first_failure {α β : Type} {f : β → α → Option β} {before before' after after' : List α}
    {x x' : α} {s t t' : β} (hlist : before ++ x :: after = before' ++ x' :: after')
    (hbefore : before.foldlM f s = some t) (hx : f t x = none) (hbefore' : before'.foldlM f s = some t')
    (hx' : f t' x' = none) : t = t' := by
  induction before generalizing before' s with
  | nil =>
    cases hbefore
    cases before' with
    | nil =>
      cases hbefore'
      rfl
    | cons y rest =>
      rw [List.nil_append, List.cons_append, List.cons.injEq] at hlist
      rw [List.foldlM_cons, ← hlist.1, hx] at hbefore'
      cases hbefore'
  | cons y rest ih =>
    cases before' with
    | nil =>
      cases hbefore'
      rw [List.nil_append, List.cons_append, List.cons.injEq] at hlist
      rw [List.foldlM_cons, hlist.1, hx'] at hbefore
      cases hbefore
    | cons y' rest' =>
      rw [List.cons_append, List.cons_append, List.cons.injEq] at hlist
      obtain ⟨rfl, hlist⟩ := hlist
      obtain ⟨s₁, hs₁, hrest⟩ := Option.bind_eq_some_iff.mp hbefore
      obtain ⟨s₂, hs₂, hrest'⟩ := Option.bind_eq_some_iff.mp hbefore'
      rw [hs₁, Option.some.injEq] at hs₂
      subst hs₂
      exact ih hlist hrest hrest'

end MeshWeaver.Lib
