/-
# Cutting a stream into segments

A receiver collects the elements of a stream and looks, after each of them,
at what it has collected: it goes on, or it is done with them, has something
to say about them or not, and starts again from nothing (`verdict`). What it
has collected is all of its state, so it does not matter how the stream is
cut (`feeds_append`), and what it says of a stream is what it says at the
first place where it is done and what it says of the rest (`feeds_cases`).
-/
import Mathlib

namespace Lib

variable {α β : Type} (verdict : List α → Option (List β))

/-- One more element: what is collected then, and what is said. -/
def feed (pending : List α) (a : α) : List α × List β :=
  match verdict (pending ++ [a]) with
  | none => (pending ++ [a], [])
  | some out => ([], out)

def feeds : List α → List α → List α × List β
  | pending, [] => (pending, [])
  | pending, a :: as =>
    ((feeds (feed verdict pending a).1 as).1,
      (feed verdict pending a).2 ++ (feeds (feed verdict pending a).1 as).2)

/-- What is said of a stream. -/
def segments (as : List α) : List β := (feeds verdict [] as).2

variable {verdict} {pending : List α}

theorem feed_none {a : α} (h : verdict (pending ++ [a]) = none) :
    feed verdict pending a = (pending ++ [a], []) := by
  unfold feed
  rw [h]

theorem feed_some {a : α} {out : List β} (h : verdict (pending ++ [a]) = some out) :
    feed verdict pending a = ([], out) := by
  unfold feed
  rw [h]

@[simp] theorem feeds_nil : feeds verdict pending [] = (pending, []) := rfl

theorem feeds_append : ∀ (as bs pending : List α), feeds verdict pending (as ++ bs) =
    ((feeds verdict (feeds verdict pending as).1 bs).1,
      (feeds verdict pending as).2 ++ (feeds verdict (feeds verdict pending as).1 bs).2)
  | [], _, _ => rfl
  | a :: as, bs, pending => by
    rw [List.cons_append, feeds, feeds_append as bs, feeds, List.append_assoc]

/-- As long as it goes on, everything is collected. -/
theorem feeds_open : ∀ (as : List α) {pending : List α},
    (∀ w r, as = w ++ r → w ≠ [] → verdict (pending ++ w) = none) →
    feeds verdict pending as = (pending ++ as, [])
  | [], _, _ => by simp
  | a :: as, pending, h => by
    have h₁ : verdict (pending ++ [a]) = none := h [a] as rfl (List.cons_ne_nil a [])
    have hrest : ∀ w r, as = w ++ r → w ≠ [] → verdict (pending ++ [a] ++ w) = none := by
      intro w r e _
      rw [List.append_assoc]
      exact h (a :: w) r (by rw [e]; rfl) (List.cons_ne_nil a w)
    have ih := feeds_open as hrest
    rw [feeds, feed_none h₁, ih]
    simp

/-- One segment, from what is pending of it. -/
theorem feeds_segment {as : List α} {a : α} {out : List β}
    (h : ∀ w r, as = w ++ r → w ≠ [] → verdict (pending ++ w) = none)
    (hout : verdict (pending ++ (as ++ [a])) = some out) :
    feeds verdict pending (as ++ [a]) = ([], out) := by
  rw [← List.append_assoc] at hout
  rw [feeds_append, feeds_open as h]
  simp [feeds, feed_some hout]

/-- It goes on to the end, or there is a first place where it is done. -/
theorem feeds_cases : ∀ (as pending : List α),
    (∀ w r, as = w ++ r → w ≠ [] → verdict (pending ++ w) = none) ∨
    ∃ w a r out, as = w ++ a :: r ∧ feeds verdict pending w = (pending ++ w, []) ∧
      verdict (pending ++ w ++ [a]) = some out ∧
      feeds verdict pending as = ((feeds verdict [] r).1, out ++ segments verdict r)
  | [], _ => by
    left
    intro w r e hw
    exact absurd (List.append_eq_nil_iff.mp e.symm).1 hw
  | a :: as, pending => by
    cases hv : verdict (pending ++ [a]) with
    | some out =>
      refine Or.inr ⟨[], a, as, out, rfl, by simp, by simpa using hv, ?_⟩
      rw [feeds, feed_some hv]
      rfl
    | none =>
      rcases feeds_cases as (pending ++ [a]) with hopen | ⟨w, b, r, out, rfl, hw, hout, hf⟩
      · left
        intro w r e hw
        cases w with
        | nil => exact absurd rfl hw
        | cons b w =>
          obtain ⟨rfl, e'⟩ := List.cons.inj e
          by_cases hw' : w = []
          · rw [hw', hv]
          · have := hopen w r e' hw'
            rwa [List.append_assoc] at this
      · refine Or.inr ⟨a :: w, b, r, out, rfl, ?_, ?_, ?_⟩
        · rw [feeds, feed_none hv, hw]
          simp
        · simpa using hout
        · rw [feeds, feed_none hv, hf]
          rfl

/-- What is collected is never something to be done with. -/
theorem verdict_feeds (hnil : verdict [] = none) : ∀ (as pending : List α), verdict pending = none →
    verdict (feeds verdict pending as).1 = none
  | [], _, h => h
  | a :: as, pending, _ => by
    rw [feeds]
    refine verdict_feeds hnil as _ ?_
    cases hv : verdict (pending ++ [a]) with
    | none => rw [feed_none hv, hv]
    | some out => rw [feed_some hv, hnil]

theorem length_feed_le (verdict : List α → Option (List β)) (pending : List α) (a : α) :
    (feed verdict pending a).1.length ≤ pending.length + 1 := by
  unfold feed
  split <;> simp

/-- What is said is said of elements of the stream. -/
theorem mem_segments {b : β} : ∀ (as pending : List α), b ∈ (feeds verdict pending as).2 →
    ∃ s out, verdict s = some out ∧ b ∈ out ∧ s.length ≤ pending.length + as.length
  | [], _, h => by simp at h
  | a :: as, pending, h => by
    rw [feeds] at h
    rcases List.mem_append.mp h with h | h
    · cases hv : verdict (pending ++ [a]) with
      | none => simp [feed_none hv] at h
      | some out =>
        rw [feed_some hv] at h
        exact ⟨_, out, hv, h, by simp⟩
    · obtain ⟨s, out, hs, hb, hlen⟩ := mem_segments as _ h
      refine ⟨s, out, hs, hb, ?_⟩
      have h₁ := length_feed_le verdict pending a
      rw [List.length_cons]
      omega

end Lib
