/-
# Runs of a machine that may fault

A machine answers each input with a new state and a list of outputs, or with
a fault. `run` feeds it a list of inputs and concatenates the outputs, up to
the first fault. How the inputs are cut into pieces does not matter
(`run_run`): a machine whose inputs are lists, and whose step is `run`, does
on the pieces what the machine does on their concatenation.

The rules of the library are `run_history` (what every step preserves of
the state, the inputs read so far and the outputs so far, every run
preserves), `run_total` (a run whose steps keep to an invariant under which
no step faults does not fault), `run_meets` (what the steps that meet a
condition preserve, a run whose steps all meet it preserves),
`run_simulates` (machines that answer alike step by step answer runs alike)
and `run_simulates_along` (as long as the inputs meet a condition).
-/
import Mathlib

namespace Lib

variable {σ α β ε : Type} {step : σ → α → Except ε (σ × List β)}

/-- Feed the inputs in order; the outputs of the steps are concatenated. -/
def run (step : σ → α → Except ε (σ × List β)) : σ → List α → Except ε (σ × List β)
  | s, [] => .ok (s, [])
  | s, a :: as =>
    match step s a with
    | .error e => .error e
    | .ok (s₁, o₁) =>
      match run step s₁ as with
      | .error e => .error e
      | .ok (s₂, o₂) => .ok (s₂, o₁ ++ o₂)

theorem map_ok_iff {A B : Type} {x : Except ε A} {f : A → B} {b : B} :
    x.map f = .ok b ↔ ∃ a, x = .ok a ∧ f a = b := by
  cases x <;> simp [Except.map]

@[simp] theorem run_nil (s : σ) : run step s [] = .ok (s, []) := rfl

theorem run_nil_ok {s s' : σ} {o : List β} : run step s [] = .ok (s', o) ↔ s = s' ∧ [] = o := by
  rw [run_nil, Except.ok.injEq, Prod.mk.injEq]

theorem run_cons {s s₁ : σ} {a : α} {o₁ : List β} (h : step s a = .ok (s₁, o₁)) (as : List α) :
    run step s (a :: as) = (run step s₁ as).map fun r => (r.1, o₁ ++ r.2) := by
  simp only [run, h]
  cases run step s₁ as <;> rfl

theorem run_cons_error {s : σ} {a : α} {e : ε} (h : step s a = .error e) (as : List α) :
    run step s (a :: as) = .error e := by
  simp only [run, h]

theorem run_cons_ok {s s₂ : σ} {a : α} {as : List α} {o : List β} :
    run step s (a :: as) = .ok (s₂, o) ↔
      ∃ s₁ o₁ o₂, step s a = .ok (s₁, o₁) ∧ run step s₁ as = .ok (s₂, o₂) ∧ o = o₁ ++ o₂ := by
  cases h : step s a with
  | error e => simp [run_cons_error h]
  | ok r =>
    obtain ⟨s₁, o₁⟩ := r
    rw [run_cons h]
    cases h₁ : run step s₁ as with
    | error e => simp [Except.map, h₁]
    | ok r => obtain ⟨s', o'⟩ := r; simp [Except.map, h₁, eq_comm]

theorem run_singleton (s : σ) (a : α) : run step s [a] = step s a := by
  cases h : step s a with
  | error e => exact run_cons_error h []
  | ok r => rw [run_cons h]; simp [Except.map]

theorem run_append : ∀ (as bs : List α) (s : σ), run step s (as ++ bs) =
    match run step s as with
    | .error e => .error e
    | .ok (s₁, o₁) => (run step s₁ bs).map fun r => (r.1, o₁ ++ r.2)
  | [], bs, s => by
    simp only [List.nil_append, run_nil]
    cases run step s bs <;> rfl
  | a :: as, bs, s => by
    rw [List.cons_append]
    cases h : step s a with
    | error e => rw [run_cons_error h, run_cons_error h]
    | ok r =>
      obtain ⟨s₁, o₁⟩ := r
      rw [run_cons h, run_cons h, run_append as bs s₁]
      cases run step s₁ as with
      | error e => rfl
      | ok r =>
        obtain ⟨s₂, o₂⟩ := r
        cases hb : run step s₂ bs with
        | error e => simp [Except.map, hb]
        | ok r => simp [Except.map, hb]

theorem run_append_ok {s s₂ : σ} {as bs : List α} {o : List β} :
    run step s (as ++ bs) = .ok (s₂, o) ↔
      ∃ s₁ o₁ o₂, run step s as = .ok (s₁, o₁) ∧ run step s₁ bs = .ok (s₂, o₂) ∧ o = o₁ ++ o₂ := by
  rw [run_append]
  cases run step s as with
  | error e => simp
  | ok r =>
    obtain ⟨s₁, o₁⟩ := r
    cases h : run step s₁ bs with
    | error e => simp [Except.map, h]
    | ok r => obtain ⟨s', o'⟩ := r; simp [Except.map, h, eq_comm]

/-- A run faults exactly if a step does, behind a beginning that does not. -/
theorem run_error_iff {s : σ} {as : List α} {e : ε} : run step s as = .error e ↔
    ∃ pre a post s' o, as = pre ++ a :: post ∧ run step s pre = .ok (s', o) ∧ step s' a = .error e := by
  constructor
  · intro h
    induction as generalizing s with
    | nil => cases h
    | cons a as ih =>
      cases hs : step s a with
      | error e' =>
        rw [run_cons_error hs] at h
        obtain rfl := Except.error.inj h
        exact ⟨[], a, as, s, [], rfl, rfl, hs⟩
      | ok r =>
        obtain ⟨s₁, o₁⟩ := r
        have hrest : run step s₁ as = .error e := by
          rw [run_cons hs] at h
          cases hr : run step s₁ as with
          | error e' => rwa [hr] at h
          | ok r => rw [hr] at h; cases h
        obtain ⟨pre, a', post, s', o, rfl, hpre, hstep⟩ := ih hrest
        exact ⟨a :: pre, a', post, s', o₁ ++ o, rfl, run_cons_ok.mpr ⟨s₁, o₁, o, hs, hpre, rfl⟩, hstep⟩
  · rintro ⟨pre, a, post, s', o, rfl, hpre, hstep⟩
    rw [run_append, hpre]
    dsimp only
    rw [run_cons_error hstep]
    rfl

/-- **The cuts do not matter.** Feeding the pieces one after another is
feeding their concatenation. -/
theorem run_run : ∀ (pieces : List (List α)) (s : σ),
    run (run step) s pieces = run step s pieces.flatten
  | [], _ => rfl
  | as :: pieces, s => by
    rw [List.flatten_cons, run_append]
    cases h : run step s as with
    | error e => exact run_cons_error h pieces
    | ok r =>
      obtain ⟨s₁, o₁⟩ := r
      rw [run_cons h, run_run pieces s₁]

/-- A machine that replaces each output by others replaces them in a run. -/
theorem run_map {γ : Type} {step' : σ → α → Except ε (σ × List γ)} {f : β → List γ}
    (h : ∀ s a, step' s a = (step s a).map fun r => (r.1, r.2.flatMap f)) : ∀ (as : List α) (s : σ),
    run step' s as = (run step s as).map fun r => (r.1, r.2.flatMap f)
  | [], _ => rfl
  | a :: as, s => by
    have ha := h s a
    cases hs : step s a with
    | error e =>
      rw [hs] at ha
      rw [run_cons_error hs, run_cons_error ha]
      rfl
    | ok r =>
      obtain ⟨s₁, o₁⟩ := r
      rw [hs] at ha
      rw [run_cons hs, run_cons ha, run_map h as s₁]
      cases run step s₁ as <;> simp [Except.map]

/-- What every step preserves of the state, the inputs so far and the outputs
so far, a run preserves. The steps may be assumed to be the run's own: `a` is
the input at the state `s` that the run reaches after `hist`. -/
theorem run_history (I : σ → List α → List β → Prop) (s₀ : σ) (h₀ : I s₀ [] [])
    (hstep : ∀ s hist a s' o o', run step s₀ hist = .ok (s, o) → I s hist o →
      step s a = .ok (s', o') → I s' (hist ++ [a]) (o ++ o')) :
    ∀ (as : List α) {s : σ} {o : List β}, run step s₀ as = .ok (s, o) → I s as o := by
  intro as
  induction as using List.reverseRecOn with
  | nil => intro s o h; obtain ⟨rfl, rfl⟩ := run_nil_ok.mp h; exact h₀
  | append_singleton as a ih =>
    intro s o h
    obtain ⟨s₁, o₁, o₂, h₁, h₂, rfl⟩ := run_append_ok.mp h
    rw [run_singleton] at h₂
    exact hstep s₁ as a s o₁ o₂ h₁ (ih h₁) h₂

/-- What every step keeps, a run keeps. -/
theorem run_keeps {I : σ → Prop} (hstep : ∀ s a s' o, I s → step s a = .ok (s', o) → I s') (as : List α) {s s' : σ}
    {o : List β} (h : I s) (hr : run step s as = .ok (s', o)) : I s' :=
  run_history (fun s _ _ => I s) s h (fun _ _ _ _ _ _ _ hI hs => hstep _ _ _ _ hI hs) as hr

/-- If under the invariant no step of the run faults, and the steps keep the
invariant, the run does not fault and ends in it. The invariant may speak of
the inputs still to come. -/
theorem run_total (I : σ → List α → Prop)
    (hstep : ∀ s a as, I s (a :: as) → ∃ s' o, step s a = .ok (s', o) ∧ I s' as) :
    ∀ (as : List α) (s : σ), I s as → ∃ s' o, run step s as = .ok (s', o) ∧ I s' []
  | [], s, h => ⟨s, [], rfl, h⟩
  | a :: as, s, h => by
    obtain ⟨s₁, o₁, h₁, hI⟩ := hstep s a as h
    obtain ⟨s₂, o₂, h₂, hE⟩ := run_total I hstep as s₁ hI
    exact ⟨s₂, o₁ ++ o₂, run_cons_ok.mpr ⟨s₁, o₁, o₂, h₁, h₂, rfl⟩, hE⟩

/-- **Simulation.** If related states answer every input alike and stay
related, they answer every run alike. -/
theorem run_simulates {τ : Type} {step' : τ → α → Except ε (τ × List β)} (R : σ → τ → Prop)
    (hstep : ∀ s t a, R s t → ∃ s' t' o, step s a = .ok (s', o) ∧ step' t a = .ok (t', o) ∧ R s' t') :
    ∀ (as : List α) {s : σ} {t : τ}, R s t →
      ∃ s' t' o, run step s as = .ok (s', o) ∧ run step' t as = .ok (t', o) ∧ R s' t'
  | [], s, t, hR => ⟨s, t, [], rfl, rfl, hR⟩
  | a :: as, s, t, hR => by
    obtain ⟨s₁, t₁, o₁, hs₁, ht₁, hR₁⟩ := hstep s t a hR
    obtain ⟨s₂, t₂, o₂, hs₂, ht₂, hR₂⟩ := run_simulates R hstep as hR₁
    exact ⟨s₂, t₂, o₁ ++ o₂, run_cons_ok.mpr ⟨s₁, o₁, o₂, hs₁, hs₂, rfl⟩,
      run_cons_ok.mpr ⟨t₁, o₁, o₂, ht₁, ht₂, rfl⟩, hR₂⟩

/-- What is observed of a run that does not fault. -/
theorem run_observed {τ : Type} {s : σ} {as : List α} (f : σ × List β → τ) {x : τ}
    (h : (run step s as).toOption.map f = some x) : ∃ s' o, run step s as = .ok (s', o) ∧ f (s', o) = x := by
  cases hr : run step s as with
  | error e => simp [hr, Except.toOption] at h
  | ok r => exact ⟨r.1, r.2, rfl, by simpa [hr, Except.toOption] using h⟩

/-- Every state of the run has the property, from the first to the last. -/
def Always (step : σ → α → Except ε (σ × List β)) (P : σ → Prop) : σ → List α → Prop
  | s, [] => P s
  | s, a :: as => P s ∧ ∀ r ∈ (step s a).toOption, Always step P r.1 as

/-- The states of the run are the ends of its beginnings. -/
theorem always_iff {P : σ → Prop} : ∀ (as : List α) (s : σ), Always step P s as ↔
    ∀ pre post s' o, as = pre ++ post → run step s pre = .ok (s', o) → P s'
  | [], s => by
    constructor
    · intro h pre post s' o e hrun
      obtain rfl := (List.append_eq_nil_iff.mp e.symm).1
      exact (run_nil_ok.mp hrun).1 ▸ h
    · exact fun h => h [] [] s [] rfl rfl
  | a :: as, s => by
    rw [Always]
    constructor
    · rintro ⟨hs, hall⟩ pre post s' o e hrun
      cases pre with
      | nil =>
        exact (run_nil_ok.mp hrun).1 ▸ hs
      | cons b pre =>
        obtain ⟨rfl, rfl⟩ := List.cons.inj e
        obtain ⟨s₁, o₁, o₂, h₁, h₂, rfl⟩ := run_cons_ok.mp hrun
        have hrest := hall (s₁, o₁) (by simp [h₁, Except.toOption])
        exact (always_iff (pre ++ post) s₁).mp hrest pre post s' o₂ rfl h₂
    · intro h
      refine ⟨h [] (a :: as) s [] rfl rfl, fun r hr => ?_⟩
      have h₁ : step s a = .ok (r.1, r.2) := by
        cases hstep : step s a with
        | error e => simp [hstep, Except.toOption] at hr
        | ok r' => simp [hstep, Except.toOption] at hr; rw [hr]
      refine (always_iff as r.1).mpr fun pre post s' o e hrun => ?_
      exact h (a :: pre) post s' (r.2 ++ o) (by rw [e]; rfl) (run_cons_ok.mpr ⟨r.1, r.2, o, h₁, hrun, rfl⟩)

/-- Every step of the run meets the condition, at the state it is taken in. -/
def Meets (step : σ → α → Except ε (σ × List β)) (P : σ → α → Prop) : σ → List α → Prop
  | _, [] => True
  | s, a :: as => P s a ∧ ∀ r ∈ (step s a).toOption, Meets step P r.1 as

instance Meets.decidable {P : σ → α → Prop} [∀ s a, Decidable (P s a)] :
    ∀ (as : List α) (s : σ), Decidable (Meets step P s as)
  | [], _ => .isTrue trivial
  | a :: as, s =>
    have : ∀ s, Decidable (Meets step P s as) := Meets.decidable as
    inferInstanceAs (Decidable (P s a ∧ ∀ r ∈ (step s a).toOption, Meets step P r.1 as))

theorem Meets.of_append {P : σ → α → Prop} : ∀ {as bs : List α} {s : σ},
    Meets step P s (as ++ bs) → Meets step P s as
  | [], _, _, _ => trivial
  | _ :: _, _, _, h => ⟨h.1, fun r hr => (h.2 r hr).of_append⟩

theorem Meets.imp {P Q : σ → α → Prop} (h : ∀ s a, P s a → Q s a) : ∀ {as : List α} {s : σ},
    Meets step P s as → Meets step Q s as
  | [], _, _ => trivial
  | _ :: _, _, hm => ⟨h _ _ hm.1, fun r hr => (hm.2 r hr).imp h⟩

/-- A condition that the inputs meet in any state. -/
theorem Meets.of_forall {P : σ → α → Prop} : ∀ {as : List α} {s : σ}, (∀ a ∈ as, ∀ s, P s a) → Meets step P s as
  | [], _, _ => trivial
  | a :: _, s, h => ⟨h a List.mem_cons_self s, fun _ _ => .of_forall fun b hb => h b (List.mem_cons_of_mem a hb)⟩

/-- Conditions that agree under an invariant are met by the same runs. -/
theorem meets_congr (I : σ → Prop) {P Q : σ → α → Prop} (hinv : ∀ s a s' o, I s → step s a = .ok (s', o) → I s')
    (h : ∀ s a, I s → (P s a ↔ Q s a)) :
    ∀ (as : List α) {s : σ}, I s → (Meets step P s as ↔ Meets step Q s as)
  | [], _, _ => Iff.rfl
  | a :: as, s, hI => by
    rw [Meets, Meets, h s a hI]
    refine and_congr_right fun _ => ?_
    cases hs : step s a with
    | error e => simp [Except.toOption]
    | ok r => simp [Except.toOption, meets_congr I hinv h as (hinv s a r.1 r.2 hI hs)]

/-- What the steps that meet the condition preserve of the state and the
outputs so far, a run whose steps all meet it preserves. -/
theorem run_meets (I : σ → List β → Prop) (P : σ → α → Prop)
    (hstep : ∀ s a s' o o', I s o → P s a → step s a = .ok (s', o') → I s' (o ++ o')) :
    ∀ (as : List α) {s s' : σ} {o o' : List β}, I s o → Meets step P s as →
      run step s as = .ok (s', o') → I s' (o ++ o')
  | [], s, s', o, o', hI, _, h => by
    obtain ⟨rfl, rfl⟩ := run_nil_ok.mp h
    rw [List.append_nil]
    exact hI
  | a :: as, s, s', o, o', hI, hP, h => by
    obtain ⟨s₁, o₁, o₂, h₁, h₂, rfl⟩ := run_cons_ok.mp h
    have hrest : Meets step P s₁ as := hP.2 (s₁, o₁) (by simp [h₁, Except.toOption])
    rw [← List.append_assoc]
    exact run_meets I P hstep as (hstep s a s₁ o o₁ hI hP.1 h₁) hrest h₂

/-- **When a property never fails.** If a step from a state with the property
leads to one with it exactly when it meets the condition, all the states of a
run have the property exactly when all its steps meet the condition. -/
theorem always_iff_meets (I P : σ → Prop) (C : σ → α → Prop)
    (hstep : ∀ s a, I s → ∃ s' o, step s a = .ok (s', o) ∧ I s' ∧ (P s → (P s' ↔ C s a))) :
    ∀ (as : List α) {s : σ}, I s → P s → (Always step P s as ↔ Meets step C s as)
  | [], s, _, hP => by simp [Always, Meets, hP]
  | a :: as, s, hI, hP => by
    obtain ⟨s', o, hok, hI', hiff⟩ := hstep s a hI
    have hone : ∀ Q : σ → Prop, (∀ r ∈ (step s a).toOption, Q r.1) ↔ Q s' := by
      intro Q
      simp [hok, Except.toOption]
    rw [Always, Meets, hone fun s' => Always step P s' as, hone fun s' => Meets step C s' as]
    by_cases hC : C s a
    · rw [always_iff_meets I P C hstep as hI' ((hiff hP).mpr hC)]
      simp only [hP, hC, true_and]
    · have hnot : ¬ Always step P s' as := by
        intro h
        have hP' : P s' := (always_iff as s').mp h [] as s' [] rfl rfl
        exact hC ((hiff hP).mp hP')
      simp only [hnot, hC, and_false, false_and]

/-- Every input comes at an abstract state that meets the condition with it. -/
def Along {τ : Type} (next : τ → α → τ) (C : τ → α → Prop) : τ → List α → Prop
  | _, [] => True
  | t, a :: as => C t a ∧ Along next C (next t a) as

/-- **Simulation, as long as a condition is met.** The condition is on an
abstract state that the inputs determine. -/
theorem run_simulates_along {τ υ : Type} {step' : τ → α → Except ε (τ × List β)} {next : υ → α → υ}
    {C : υ → α → Prop} (R : υ → σ → τ → Prop)
    (hstep : ∀ u s t a, R u s t → C u a →
      ∃ s' t' o, step s a = .ok (s', o) ∧ step' t a = .ok (t', o) ∧ R (next u a) s' t') :
    ∀ (as : List α) {u : υ} {s : σ} {t : τ}, R u s t → Along next C u as →
      ∃ s' t' o, run step s as = .ok (s', o) ∧ run step' t as = .ok (t', o)
  | [], _, s, t, _, _ => ⟨s, t, [], rfl, rfl⟩
  | a :: as, u, s, t, hR, hC => by
    obtain ⟨s₁, t₁, o₁, hs₁, ht₁, hR₁⟩ := hstep u s t a hR hC.1
    obtain ⟨s₂, t₂, o₂, hs₂, ht₂⟩ := run_simulates_along R hstep as hR₁ hC.2
    exact ⟨s₂, t₂, o₁ ++ o₂, run_cons_ok.mpr ⟨s₁, o₁, o₂, hs₁, hs₂, rfl⟩,
      run_cons_ok.mpr ⟨t₁, o₁, o₂, ht₁, ht₂, rfl⟩⟩

/-- **When every output is right.** If the inputs determine an abstract state
beside which no step faults, and the outputs of a step have the property
exactly when that state meets the condition, the outputs of a run have it
exactly when the condition is met all along. -/
theorem outputs_iff_along {τ : Type} {next : τ → α → τ} (I : σ → τ → Prop) (Q : β → Prop) (C : τ → α → Prop)
    (hstep : ∀ s t a, I s t → ∃ s' o, step s a = .ok (s', o) ∧ I s' (next t a) ∧ ((∀ b ∈ o, Q b) ↔ C t a)) :
    ∀ (as : List α) {s : σ} {t : τ}, I s t → ∃ s' o, run step s as = .ok (s', o) ∧
      ((∀ b ∈ o, Q b) ↔ Along next C t as)
  | [], s, t, hI => ⟨s, [], rfl, by simp [Along]⟩
  | a :: as, s, t, hI => by
    obtain ⟨s₁, o₁, h₁, hI₁, hiff₁⟩ := hstep s t a hI
    obtain ⟨s₂, o₂, h₂, hiff₂⟩ := outputs_iff_along I Q C hstep as hI₁
    refine ⟨s₂, o₁ ++ o₂, run_cons_ok.mpr ⟨s₁, o₁, o₂, h₁, h₂, rfl⟩, ?_⟩
    rw [List.forall_mem_append, hiff₁, hiff₂, Along]

/-- No step of the run faults, and all its states have the property. -/
def Safely (step : σ → α → Except ε (σ × List β)) (P : σ → Prop) : σ → List α → Prop
  | s, [] => P s
  | s, a :: as => P s ∧ ∃ s' o, step s a = .ok (s', o) ∧ Safely step P s' as

theorem Safely.run {P : σ → Prop} : ∀ {as : List α} {s : σ}, Safely step P s as →
    ∃ s' o, Lib.run step s as = .ok (s', o) ∧ P s'
  | [], s, h => ⟨s, [], rfl, h⟩
  | _ :: _, _, h => by
    obtain ⟨-, s₁, o₁, h₁, hrest⟩ := h
    obtain ⟨s₂, o₂, h₂, hP⟩ := hrest.run
    exact ⟨s₂, o₁ ++ o₂, run_cons_ok.mpr ⟨s₁, o₁, o₂, h₁, h₂, rfl⟩, hP⟩

/-- **When a run stays safe.** If a step from a state with the property does
not fault and leads to one with the property exactly when it meets the
condition, a run is safe exactly when all its steps meet the condition. -/
theorem safely_iff_meets (P : σ → Prop) (C : σ → α → Prop)
    (hstep : ∀ s a, P s → ∃ s' o, step s a = .ok (s', o) ∧ (P s' ↔ C s a)) :
    ∀ (as : List α) {s : σ}, P s → (Safely step P s as ↔ Meets step C s as)
  | [], _, hP => by simp [Safely, Meets, hP]
  | a :: as, s, hP => by
    obtain ⟨s', o, hok, hiff⟩ := hstep s a hP
    have hsafe : Safely step P s (a :: as) ↔ Safely step P s' as := by
      constructor
      · rintro ⟨-, s₁, o₁, h₁, hrest⟩
        rw [hok] at h₁
        obtain ⟨rfl, rfl⟩ := Prod.mk.inj (Except.ok.inj h₁)
        exact hrest
      · exact fun hrest => ⟨hP, s', o, hok, hrest⟩
    have hmeets : Meets step C s (a :: as) ↔ C s a ∧ Meets step C s' as := by
      rw [Meets]
      simp [hok, Except.toOption]
    rw [hsafe, hmeets]
    by_cases hC : C s a
    · rw [safely_iff_meets P C hstep as (hiff.mpr hC)]
      simp only [hC, true_and]
    · have hnot : ¬ Safely step P s' as := by
        intro h
        cases as with
        | nil => exact hC (hiff.mp h)
        | cons b bs => exact hC (hiff.mp h.1)
      simp only [hnot, hC, false_and]

end Lib
