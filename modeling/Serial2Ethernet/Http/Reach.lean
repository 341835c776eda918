/-
# What a request reaches in memory

`sscanf` stores four bytes for every conversion, so the conversions into the
last three members of `n_cfg` reach past its end; and a parameter without '='
has a null pointer for its value, which no block looks at. `contained_iff`
says which requests do neither.
-/
import Serial2Ethernet.Http.Request

namespace Serial2Ethernet
namespace CgiSsi

open Lib Httpd

/-- No store reaches outside the 103 bytes of `n_cfg`, and no null pointer is
given to `sscanf`. -/
def Contained (ovf : Overflow) (g : SysConfig) (ps : List Param) : Prop :=
  (configLoop ovf ps parameters ⟨g, []⟩).1 ≠ .null ∧
    ∀ a ∈ (configLoop ovf ps parameters ⟨g, []⟩).2.stored, a + 4 ≤ 103

theorem forall_split_cons {α : Type} {P : List α → α → Prop} {a : α} {as : List α} :
    (∀ pre x post, a :: as = pre ++ x :: post → P pre x) ↔
      P [] a ∧ ∀ pre x post, as = pre ++ x :: post → P (a :: pre) x := by
  constructor
  · exact fun h => ⟨h [] a as rfl, fun pre x post e => h (a :: pre) x post (by rw [e]; rfl)⟩
  · rintro ⟨h₁, h₂⟩ pre x post e
    cases pre with
    | nil =>
      cases e
      exact h₁
    | cons b pre =>
      obtain ⟨rfl, htail⟩ := List.cons.inj e
      exact h₂ pre x post htail

section Reach

variable {ovf : Overflow} {ps : List Param}

/-- What the block of a parameter does stays inside. -/
def BlockContained (ovf : Overflow) (ps : List Param) (p : Parameter) : Prop :=
  supplied p.name ps ≠ some none ∧ ∀ a ∈ (p.args.zip (words ovf ps p)).map Prod.fst, a + 4 ≤ 103

theorem forall_stored {l : Local} {ws : List (ℕ × UInt32)} :
    (∀ a ∈ (l.store ws).stored, a + 4 ≤ 103) ↔
      (∀ a ∈ l.stored, a + 4 ≤ 103) ∧ ∀ a ∈ ws.map Prod.fst, a + 4 ≤ 103 :=
  List.forall_mem_append

/-- The blocks stay inside when each that is reached does. -/
theorem configLoop_contained : ∀ (blocks : List Parameter) (l : Local),
    ((configLoop ovf ps blocks l).1 ≠ .null ∧
      ∀ a ∈ (configLoop ovf ps blocks l).2.stored, a + 4 ≤ 103) ↔
    (∀ a ∈ l.stored, a + 4 ≤ 103) ∧ ∀ pre p post, blocks = pre ++ p :: post →
      (∀ q ∈ pre, ¬ Rejects ovf ps q) → BlockContained ovf ps p
  | [], l => by simp [configLoop]
  | p :: blocks, l => by
    rw [forall_split_cons (P := fun pre x => (∀ q ∈ pre, ¬ Rejects ovf ps q) → BlockContained ovf ps x)]
    have hpass : ∀ l' : Local, l'.stored = (l.store (p.args.zip (words ovf ps p))).stored →
        supplied p.name ps ≠ some none → ¬ Rejects ovf ps p →
        (((configLoop ovf ps blocks l').1 ≠ .null ∧
            ∀ a ∈ (configLoop ovf ps blocks l').2.stored, a + 4 ≤ 103) ↔
          (∀ a ∈ l.stored, a + 4 ≤ 103) ∧
            ((∀ q ∈ ([] : List Parameter), ¬ Rejects ovf ps q) → BlockContained ovf ps p) ∧
            ∀ pre x post, blocks = pre ++ x :: post → (∀ q ∈ p :: pre, ¬ Rejects ovf ps q) →
              BlockContained ovf ps x) := by
      intro l' hst hs hrej
      rw [configLoop_contained blocks l', hst, forall_stored]
      constructor
      · rintro ⟨⟨h₁, h₂⟩, h₃⟩
        exact ⟨h₁, fun _ => ⟨hs, h₂⟩, fun pre x post e hq =>
          h₃ pre x post e (List.forall_mem_cons.mp hq).2⟩
      · rintro ⟨h₁, h₂, h₃⟩
        exact ⟨⟨h₁, (h₂ (by simp)).2⟩, fun pre x post e hq =>
          h₃ pre x post e (List.forall_mem_cons.mpr ⟨hrej, hq⟩)⟩
    rcases configLoop_cons ovf ps p blocks l with
      ⟨hs, h⟩ | ⟨status, hm, hk, h⟩ | ⟨hm, hk, h⟩ | ⟨hs, hm, h⟩
    · rw [h]
      exact iff_of_false (fun hc => hc.1 rfl) fun hc => (hc.2.1 (by simp)).1 hs
    · rw [h]
      obtain ⟨value, hv, hne⟩ := hm
      have hrej : Rejects ovf ps p := ⟨⟨value, hv, hne⟩, by simp [hk]⟩
      constructor
      · rintro ⟨-, hst⟩
        obtain ⟨h₁, h₂⟩ := forall_stored.mp hst
        exact ⟨h₁, fun _ => ⟨by simp [hv], h₂⟩, fun pre x post _ hq =>
          absurd hrej (List.forall_mem_cons.mp hq).1⟩
      · rintro ⟨h₁, h₂, -⟩
        exact ⟨by simp, forall_stored.mpr ⟨h₁, (h₂ (by simp)).2⟩⟩
    · rw [h]
      obtain ⟨value, hv, hne⟩ := hm
      exact hpass _ rfl (by simp [hv]) fun hrej => hrej.2 hk
    · rw [h]
      exact hpass _ rfl hs fun hrej => hm hrej.1

/-- The only members whose four bytes reach past the end. -/
theorem reach_table : ∀ p ∈ parameters,
    (p ∈ [parity 14, parity 15, cycle] ∧ p.args = [p.off] ∧ 99 < p.off) ∨
      (p ∉ [parity 14, parity 15, cycle] ∧ ∀ a ∈ p.args, a + 4 ≤ 103) := by decide

theorem blockContained_iff {p : Parameter} (hp : p ∈ parameters) : BlockContained ovf ps p ↔
    supplied p.name ps ≠ some none ∧ (p ∈ [parity 14, parity 15, cycle] → words ovf ps p = []) := by
  refine and_congr_right fun _ => ?_
  rcases reach_table p hp with ⟨hlast, hargs, hoff⟩ | ⟨hlast, hargs⟩
  · rw [hargs]
    cases hw : words ovf ps p with
    | nil => simp
    | cons v vals => simpa [hlast] using hoff
  · refine iff_of_true (fun a ha => ?_) fun h => absurd h hlast
    exact hargs a ((zip_fst_sublist _ _).subset ha)

end Reach

/-- **A request stays inside exactly when** every block it reaches that finds
its parameter finds a value, and the ones of p15, p16 and cycle find one that
does not convert. A block is reached if no parameter before it is rejected. -/
theorem contained_iff (ovf : Overflow) (g : SysConfig) (uri : Option (List Char)) :
    Contained ovf g (extractUriParameters uri) ↔
      ∀ pre p post, parameters = pre ++ p :: post →
        (∀ q ∈ pre, ¬ Rejects ovf (extractUriParameters uri) q) →
        supplied p.name (extractUriParameters uri) ≠ some none ∧
          (p ∈ [parity 14, parity 15, cycle] → words ovf (extractUriParameters uri) p = []) := by
  unfold Contained
  rw [configLoop_contained]
  constructor
  · rintro ⟨-, h⟩ pre p post e hq
    exact (blockContained_iff (by rw [e]; simp)).mp (h pre p post e hq)
  · intro h
    exact ⟨by simp, fun pre p post e hq => (blockContained_iff (by rw [e]; simp)).mpr (h pre p post e hq)⟩

/-- A query cycle stores past the end; a name alone has a null pointer for its value. -/
theorem not_contained :
    ¬ Contained (fun _ _ => 0) (fun _ => 0) (extractUriParameters (some "cycle=1".toList)) ∧
    ¬ Contained (fun _ _ => 0) (fun _ => 0) (extractUriParameters (some "mask".toList)) := by
  constructor
  · exact fun h => absurd (h.2 102 (by decide)) (by decide)
  · exact fun h => h.1 (by decide)

end CgiSsi
end Serial2Ethernet
