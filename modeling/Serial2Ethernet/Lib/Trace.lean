/-
# A machine seen as a sequence of calls

Of a large machine often a part is of interest, and the machine only changes it
by calls, each at a step of its own. `trace` are the calls of a run, in order.
If every step does to the part what its call does (`ActsOn`), a run does to the
part what its calls do, one after the other, and faults exactly if one of them
does (`run_trace`). What is known of all sequences of calls is then known of all
runs: `foldlM_shows` and `foldlM_returns` are the rules for the former.
-/
import Serial2Ethernet.Lib.Run

namespace Lib

variable {σ α β ε κ A B : Type} {step : σ → α → Except ε (σ × List β)} {call : σ → α → Option κ}
  {apply : A → κ → Except ε A} {view : σ → A}

/-- The calls of a run, in order, up to the one that faults. -/
def trace (step : σ → α → Except ε (σ × List β)) (call : σ → α → Option κ) : σ → List α → List κ
  | _, [] => []
  | s, a :: as => (call s a).toList ++ (step s a).toOption.elim [] fun r => trace step call r.1 as

/-- What an optional call does. -/
def applyCall (apply : A → κ → Except ε A) (x : A) : Option κ → Except ε A
  | some k => apply x k
  | none => .ok x

/-- Under the invariant, a step does to the part what its call does. -/
def ActsOn (step : σ → α → Except ε (σ × List β)) (call : σ → α → Option κ) (apply : A → κ → Except ε A)
    (view : σ → A) (I : σ → Prop) : Prop :=
  ∀ s a, I s → (step s a).map (fun r => view r.1) = applyCall apply (view s) (call s a)

theorem foldlM_toList (o : Option κ) (ks : List κ) (x : A) :
    (o.toList ++ ks).foldlM apply x = (applyCall apply x o).bind fun y => ks.foldlM apply y := by
  cases o with
  | none => rfl
  | some k => rfl

/-- **A run is its calls**, to the part of the machine. -/
theorem run_trace {I : σ → Prop} (hI : ∀ s a s' o, I s → step s a = .ok (s', o) → I s')
    (h : ActsOn step call apply view I) : ∀ (as : List α) {s : σ}, I s →
    (run step s as).map (fun r => view r.1) = (trace step call s as).foldlM apply (view s)
  | [], _, _ => rfl
  | a :: as, s, hs => by
    have hact := h s a hs
    rw [trace, foldlM_toList, ← hact]
    cases ha : step s a with
    | error e =>
      rw [run_cons_error ha]
      rfl
    | ok r =>
      obtain ⟨s', o⟩ := r
      have ih := run_trace hI h as (hI s a s' o hs ha)
      rw [run_cons ha]
      calc ((run step s' as).map fun r => (r.1, o ++ r.2)).map (fun r => view r.1)
          = (run step s' as).map fun r => view r.1 := by cases run step s' as <;> rfl
        _ = (trace step call s' as).foldlM apply (view s') := ih

theorem trace_singleton (s : σ) (a : α) : trace step call s [a] = (call s a).toList := by
  cases h : step s a <;> simp [trace, h, Except.toOption]

/-- The calls behind a beginning that does not fault come behind those of the beginning. -/
theorem trace_append : ∀ (as bs : List α) {s s' : σ} {o : List β}, run step s as = .ok (s', o) →
    trace step call s (as ++ bs) = trace step call s as ++ trace step call s' bs
  | [], bs, s, s', o, hr => by
    rw [(run_nil_ok.mp hr).1]
    rfl
  | a :: as, bs, s, s', o, hr => by
    obtain ⟨s₁, o₁, o₂, h₁, h₂, -⟩ := run_cons_ok.mp hr
    rw [List.cons_append, trace, trace, h₁, List.append_assoc]
    exact congrArg ((call s a).toList ++ ·) (trace_append as bs h₂)

/-- A call of a run is that of one of its inputs. -/
theorem mem_trace {k : κ} : ∀ {as : List α} {s : σ}, k ∈ trace step call s as → ∃ a ∈ as, ∃ s', call s' a = some k
  | a :: as, s, h => by
    rcases List.mem_append.mp h with h | h
    · exact ⟨a, List.mem_cons_self, s, Option.mem_toList.mp h⟩
    · cases ha : step s a with
      | error e =>
        rw [ha] at h
        cases h
      | ok r =>
        rw [ha] at h
        obtain ⟨a', ha', hcall⟩ := mem_trace h
        exact ⟨a', List.mem_cons_of_mem _ ha', hcall⟩

/-- What each of the calls keeps, and what is shown of each call, over a sequence of calls. -/
theorem foldlM_shows {P : A → Prop} {f : A → B} {g : B → κ → B} : ∀ {ks : List κ} {x x' : A},
    (∀ k ∈ ks, ∀ y y', P y → apply y k = .ok y' → P y' ∧ f y' = g (f y) k) → P x → ks.foldlM apply x = .ok x' →
    P x' ∧ f x' = ks.foldl g (f x)
  | [], _, _, _, hx, h => Except.ok.inj h ▸ ⟨hx, rfl⟩
  | k :: ks, x, x', hshow, hx, h => by
    rw [List.forall_mem_cons] at hshow
    rw [List.foldlM_cons] at h
    cases hk : apply x k with
    | error e =>
      rw [hk] at h
      cases h
    | ok y =>
      rw [hk] at h
      obtain ⟨hy, hf⟩ := hshow.1 x y hx hk
      rw [List.foldl_cons, ← hf]
      exact foldlM_shows hshow.2 hy h

/-- If whether a call faults does not depend on the part, a sequence of calls comes to its end exactly if
none of them faults. -/
theorem foldlM_returns {P : κ → Prop} (h : ∀ x k, (∃ x', apply x k = .ok x') ↔ P k) : ∀ (ks : List κ) (x : A),
    (∃ x', ks.foldlM apply x = .ok x') ↔ ∀ k ∈ ks, P k
  | [], x => iff_of_true ⟨x, rfl⟩ (fun _ hk => absurd hk List.not_mem_nil)
  | k :: ks, x => by
    rw [List.forall_mem_cons, List.foldlM_cons]
    cases hk : apply x k with
    | error e =>
      have hnot : ¬ P k := fun hP => by
        obtain ⟨x', hx'⟩ := (h x k).mpr hP
        rw [hk] at hx'
        cases hx'
      refine iff_of_false ?_ fun hP => hnot hP.1
      rintro ⟨x', hx'⟩
      cases hx'
    | ok y =>
      have hP : P k := (h x k).mp ⟨y, hk⟩
      exact (foldlM_returns h ks y).trans (and_iff_right hP).symm

end Lib
