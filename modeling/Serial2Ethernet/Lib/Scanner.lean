/-
# Scanners that find marks

A scanner reads a list element by element and may say, at an element, that a
mark ends there. The list is shown with a text put in behind each mark.
`weave` is the function for texts that depend on the mark alone, `Woven` the
relation for texts that may differ from one mark to the next of the same name.
Either may leave out the first elements of the list: they are scanned, and not
shown. What a list is shown as splits where the list is split (`Woven.split`),
and can be continued by any list (`Woven.extend`).
-/
import Mathlib

namespace Lib
namespace Scanner

variable {σ α τ : Type} {scan : σ → α → σ × Option τ} {ins : τ → List α} {Ans : τ → List α → Prop}

/-- The state behind the elements. -/
def after (scan : σ → α → σ × Option τ) : σ → List α → σ
  | s, [] => s
  | s, a :: as => after scan (scan s a).1 as

/-- The marks, in order. -/
def marks (scan : σ → α → σ × Option τ) : σ → List α → List τ
  | _, [] => []
  | s, a :: as => (scan s a).2.toList ++ marks scan (scan s a).1 as

/-- The elements behind the first `skip`, with a text behind each mark. -/
def weave (scan : σ → α → σ × Option τ) (ins : τ → List α) : (skip : ℕ) → σ → List α → List α
  | _, _, [] => []
  | skip, s, a :: as =>
    (if skip = 0 then [a] else []) ++ (scan s a).2.elim [] ins ++ weave scan ins (skip - 1) (scan s a).1 as

/-- What is shown of an element that comes behind `as`. -/
def shown (skip : ℕ) (as : List α) (a : α) : List α := if as.length < skip then [] else [a]

/-- The list is shown as `out`, with an answer behind each mark, and leads from `s₀` to `s`. -/
inductive Woven (scan : σ → α → σ × Option τ) (Ans : τ → List α → Prop) (skip : ℕ) (s₀ : σ) :
    (as out : List α) → (s : σ) → Prop
  | nil : Woven scan Ans skip s₀ [] [] s₀
  | plain {as out s a} : Woven scan Ans skip s₀ as out s → (scan s a).2 = none →
      Woven scan Ans skip s₀ (as ++ [a]) (out ++ shown skip as a) (scan s a).1
  | mark {as out s a t text} : Woven scan Ans skip s₀ as out s → (scan s a).2 = some t → Ans t text →
      Woven scan Ans skip s₀ (as ++ [a]) (out ++ shown skip as a ++ text) (scan s a).1

/-! ### Composition -/

@[simp] theorem after_nil (s : σ) : after scan s [] = s := rfl

theorem after_append : ∀ (as bs : List α) (s : σ), after scan s (as ++ bs) = after scan (after scan s as) bs
  | [], _, _ => rfl
  | a :: as, bs, s => after_append as bs (scan s a).1

theorem after_concat (as : List α) (a : α) (s : σ) : after scan s (as ++ [a]) = (scan (after scan s as) a).1 :=
  after_append as [a] s

theorem marks_append : ∀ (as bs : List α) (s : σ),
    marks scan s (as ++ bs) = marks scan s as ++ marks scan (after scan s as) bs
  | [], _, _ => rfl
  | a :: as, bs, s => by rw [List.cons_append, marks, marks_append as, marks, after, List.append_assoc]

theorem marks_concat (as : List α) (a : α) (s : σ) :
    marks scan s (as ++ [a]) = marks scan s as ++ (scan (after scan s as) a).2.toList := by
  rw [marks_append, marks, marks, List.append_nil]

theorem weave_append : ∀ (as bs : List α) (skip : ℕ) (s : σ), weave scan ins skip s (as ++ bs) =
    weave scan ins skip s as ++ weave scan ins (skip - as.length) (after scan s as) bs
  | [], _, _, _ => by rw [weave, List.nil_append, List.nil_append, List.length_nil, Nat.sub_zero, after]
  | a :: as, bs, skip, s => by
    have hskip : skip - (a :: as).length = skip - 1 - as.length := by
      rw [List.length_cons]
      omega
    rw [List.cons_append, weave, weave_append as bs, weave, after, hskip]
    simp only [List.append_assoc]

theorem weave_concat (as : List α) (a : α) (skip : ℕ) (s : σ) : weave scan ins skip s (as ++ [a]) =
    weave scan ins skip s as ++ (shown skip as a ++ (scan (after scan s as) a).2.elim [] ins) := by
  have hshown : (if skip - as.length = 0 then [a] else []) = shown skip as a := by
    unfold shown
    by_cases h : as.length < skip
    · rw [if_pos h, if_neg (by omega)]
    · rw [if_neg h, if_pos (by omega)]
  rw [weave_append, weave, weave, hshown, List.append_nil]

/-- A list without marks is shown as it is. -/
theorem weave_of_marks_nil : ∀ (as : List α) (skip : ℕ) (s : σ), marks scan s as = [] →
    weave scan ins skip s as = as.drop skip
  | [], _, _, _ => by rw [weave, List.drop_nil]
  | a :: as, skip, s, h => by
    obtain ⟨h₁, h₂⟩ := List.append_eq_nil_iff.mp h
    have hnone : (scan s a).2 = none := Option.toList_eq_nil_iff.mp h₁
    rw [weave, hnone, weave_of_marks_nil as _ _ h₂]
    cases skip with
    | zero => rfl
    | succ skip => rw [if_neg (Nat.succ_ne_zero skip), Nat.add_sub_cancel]; rfl

/-! ### Pieces of a list -/

/-- From `s`, the elements are shown as `out`, have the marks `ts`, and lead to `s'`. -/
structure Shows (scan : σ → α → σ × Option τ) (ins : τ → List α) (s : σ) (as out : List α) (ts : List τ)
    (s' : σ) : Prop where
  state : after scan s as = s'
  found : marks scan s as = ts
  out_eq : weave scan ins 0 s as = out

theorem Shows.nil (s : σ) : Shows scan ins s [] [] [] s := ⟨rfl, rfl, rfl⟩

theorem Shows.append {s s₁ s₂ : σ} {as bs out out' : List α} {ts ts' : List τ}
    (h : Shows scan ins s as out ts s₁) (h' : Shows scan ins s₁ bs out' ts' s₂) :
    Shows scan ins s (as ++ bs) (out ++ out') (ts ++ ts') s₂ := by
  refine ⟨?_, ?_, ?_⟩
  · rw [after_append, h.state, h'.state]
  · rw [marks_append, h.state, h.found, h'.found]
  · rw [weave_append, h.state, h.out_eq, Nat.zero_sub, h'.out_eq]

/-- A piece without marks is shown as it is. -/
theorem Shows.of_marks_nil {s s' : σ} {as : List α} (hs : after scan s as = s') (hm : marks scan s as = []) :
    Shows scan ins s as as [] s' :=
  ⟨hs, hm, by rw [weave_of_marks_nil as 0 s hm, List.drop_zero]⟩

/-- One element without a mark. -/
theorem Shows.step {s s' : σ} {a : α} (h : scan s a = (s', none)) : Shows scan ins s [a] [a] [] s' :=
  .of_marks_nil (by rw [after, after, h]) (by rw [marks, marks, h]; rfl)

/-- Elements at which the scanner stays where it is. -/
theorem Shows.stay {s : σ} : ∀ {as : List α}, (∀ a ∈ as, scan s a = (s, none)) → Shows scan ins s as as [] s
  | [], _ => .nil s
  | a :: _, h => (Shows.step (h a List.mem_cons_self)).append (.stay fun a' ha' => h a' (List.mem_cons_of_mem _ ha'))

/-! ### The relation against the function -/

theorem Woven.state {skip : ℕ} {s₀ s : σ} {as out : List α} (h : Woven scan Ans skip s₀ as out s) :
    s = after scan s₀ as := by
  induction h with
  | nil => rfl
  | plain _ _ ih => rw [after_concat, ← ih]
  | mark _ _ _ ih => rw [after_concat, ← ih]

theorem shown_append (skip : ℕ) (as bs : List α) (a : α) :
    shown skip (as ++ bs) a = shown (skip - as.length) bs a := by
  have hiff : (as ++ bs).length < skip ↔ bs.length < skip - as.length := by
    rw [List.length_append]
    omega
  unfold shown
  simp only [hiff]

/-- The texts that the marks of the list can have are those of a function: what is shown is its value. -/
theorem Woven.eq_weave {skip : ℕ} {s₀ s : σ} {as out : List α} (h : Woven scan Ans skip s₀ as out s)
    (hans : ∀ t ∈ marks scan s₀ as, ∀ text, Ans t text → text = ins t) : out = weave scan ins skip s₀ as := by
  induction h with
  | nil => rfl
  | plain hw hnone ih =>
    rw [marks_concat, ← hw.state, hnone, Option.toList_none, List.append_nil] at hans
    rw [weave_concat, ← hw.state, hnone, ← ih hans]
    simp
  | @mark as out s a t text hw hsome hx ih =>
    rw [marks_concat, ← hw.state, hsome, Option.toList_some, List.forall_mem_append, List.forall_mem_singleton] at hans
    rw [weave_concat, ← hw.state, hsome, ← ih hans.1, hans.2 text hx, List.append_assoc]
    rfl

theorem Woven.of_marks_nil {skip : ℕ} {s₀ s : σ} {as out : List α} (h : Woven scan Ans skip s₀ as out s)
    (hm : marks scan s₀ as = []) : out = as.drop skip := by
  have hnone : ∀ t ∈ marks scan s₀ as, ∀ text, Ans t text → text = [] := fun t ht => by
    rw [hm] at ht
    exact absurd ht List.not_mem_nil
  have hweave : out = weave scan (fun _ => []) skip s₀ as := h.eq_weave hnone
  rw [hweave, weave_of_marks_nil as skip s₀ hm]

/-- A list with one mark is shown with one text. -/
theorem Woven.of_marks_single {skip : ℕ} {s₀ s : σ} {as out : List α} {t : τ} (h : Woven scan Ans skip s₀ as out s)
    (hm : marks scan s₀ as = [t]) : ∃ text, Ans t text ∧ out = weave scan (fun _ => text) skip s₀ as := by
  induction h with
  | nil => cases hm
  | plain hw hnone ih =>
    rw [marks_concat, ← hw.state, hnone, Option.toList_none, List.append_nil] at hm
    obtain ⟨text, hx, rfl⟩ := ih hm
    refine ⟨text, hx, ?_⟩
    rw [weave_concat, ← hw.state, hnone]
    simp
  | @mark as out s a t' text hw hsome hx ih =>
    rw [marks_concat, ← hw.state, hsome, Option.toList_some] at hm
    obtain ⟨hnil, hlast⟩ := List.append_inj' (hm.trans (List.nil_append [t]).symm) rfl
    obtain rfl := (List.cons.inj hlast).1
    refine ⟨text, hx, ?_⟩
    rw [weave_concat, ← hw.state, hsome, weave_of_marks_nil as skip s₀ hnil, hw.of_marks_nil hnil, List.append_assoc]
    rfl

theorem Woven.concat_inv {skip : ℕ} {s₀ s : σ} {as out : List α} {a : α}
    (h : Woven scan Ans skip s₀ (as ++ [a]) out s) : ∃ out' s', Woven scan Ans skip s₀ as out' s' ∧
      s = (scan s' a).1 ∧ ((scan s' a).2 = none ∧ out = out' ++ shown skip as a ∨
        ∃ t text, (scan s' a).2 = some t ∧ Ans t text ∧ out = out' ++ shown skip as a ++ text) := by
  generalize hl : as ++ [a] = l at h
  cases h with
  | nil => exact absurd hl (List.append_ne_nil_of_right_ne_nil as (List.cons_ne_nil a []))
  | plain hw hnone =>
    obtain ⟨rfl, ha⟩ := List.append_inj' hl rfl
    obtain rfl := (List.cons.inj ha).1
    exact ⟨_, _, hw, rfl, .inl ⟨hnone, rfl⟩⟩
  | mark hw hsome hx =>
    obtain ⟨rfl, ha⟩ := List.append_inj' hl rfl
    obtain rfl := (List.cons.inj ha).1
    exact ⟨_, _, hw, rfl, .inr ⟨_, _, hsome, hx, rfl⟩⟩

/-- What is shown of a list is what is shown of a beginning of it, and of the rest. -/
theorem Woven.split {skip : ℕ} {s₀ s : σ} {as bs out : List α} (h : Woven scan Ans skip s₀ (as ++ bs) out s) :
    ∃ out₁ out₂ s₁, out = out₁ ++ out₂ ∧ Woven scan Ans skip s₀ as out₁ s₁ ∧
      Woven scan Ans (skip - as.length) s₁ bs out₂ s := by
  induction bs using List.reverseRecOn generalizing out s with
  | nil => exact ⟨out, [], s, (List.append_nil out).symm, List.append_nil as ▸ h, .nil⟩
  | append_singleton bs b ih =>
    rw [← List.append_assoc] at h
    obtain ⟨out', s', hw, rfl, hlast⟩ := h.concat_inv
    obtain ⟨out₁, out₂, s₁, rfl, h₁, h₂⟩ := ih hw
    rw [shown_append] at hlast
    rcases hlast with ⟨hnone, rfl⟩ | ⟨t, text, hsome, hx, rfl⟩
    · exact ⟨out₁, _, s₁, List.append_assoc _ _ _, h₁, h₂.plain hnone⟩
    · refine ⟨out₁, _, s₁, ?_, h₁, h₂.mark hsome hx⟩
      rw [List.append_assoc, List.append_assoc, ← List.append_assoc out₂]

/-- If every mark has a text, what is shown can be continued. -/
theorem Woven.extend (hans : ∀ t, ∃ text, Ans t text) {skip : ℕ} {s₀ s : σ} {as out : List α}
    (h : Woven scan Ans skip s₀ as out s) (bs : List α) :
    ∃ out' s', Woven scan Ans skip s₀ (as ++ bs) (out ++ out') s' := by
  induction bs using List.reverseRecOn with
  | nil => exact ⟨[], s, by rwa [List.append_nil, List.append_nil]⟩
  | append_singleton bs b ih =>
    obtain ⟨out', s', hw⟩ := ih
    rw [← List.append_assoc]
    cases hs : (scan s' b).2 with
    | none => exact ⟨_, _, List.append_assoc out _ _ ▸ hw.plain hs⟩
    | some t =>
      obtain ⟨text, hx⟩ := hans t
      exact ⟨_, _, List.append_assoc out _ _ ▸ List.append_assoc out _ _ ▸ hw.mark hs hx⟩

end Scanner
end Lib
