/-
# What a request leaves in `n_cfg`

The blocks of `Config_Handler` lie in the order of the members, so the stores
ascend (`requested_ascending`), and a store that reaches past its member is
followed by the stores of the next members. When the last block has been
passed, a byte of a parameter that was given is the byte of its value
(`converted_byte`), and a byte of one that was not is whatever was stored over
it, or the first content of `n_cfg` (`stored_byte`).
-/
import Serial2Ethernet.Http.CgiSsi

namespace Serial2Ethernet
namespace CgiSsi

open Lib Config Flash Httpd

section Request

variable (ovf : Overflow) (ps : List Param)

/-- The words the block of `p` converts. -/
def words (p : Parameter) : List UInt32 :=
  match supplied p.name ps with
  | some (some value) => sscanf ovf p.fmt.toList value
  | _ => []

/-- The parameter is given, and its value does not convert. -/
def Malforms (p : Parameter) : Prop :=
  ∃ value, supplied p.name ps = some (some value) ∧ (sscanf ovf p.fmt.toList value).length ≠ p.count

/-- The block of `p` returns with a status. -/
def Rejects (p : Parameter) : Prop := Malforms ovf ps p ∧ p.malformed ≠ .localGate

/-- The words of `p`, if it is given and its value converts. -/
def parsed (p : Parameter) : Option (List UInt32) :=
  if (words ovf ps p).length = p.count then some (words ovf ps p) else none

/-- The stores a request asks for, in the order of the blocks. -/
def requested (blocks : List Parameter) : List (ℕ × UInt32) :=
  blocks.flatMap fun p => p.args.zip (words ovf ps p)

end Request

section Blocks

variable {ovf : Overflow} {ps : List Param}

theorem words_absent {p : Parameter} (h : supplied p.name ps = none) : words ovf ps p = [] := by
  simp [words, h]

theorem malforms_iff {p : Parameter} {value : List Char} (h : supplied p.name ps = some (some value)) :
    Malforms ovf ps p ↔ (words ovf ps p).length ≠ p.count := by
  simp [Malforms, words, h]

/-- What a block does: it stops at a null pointer, returns a status, changes
the gate, or passes with its words stored. -/
theorem configLoop_cons (ovf : Overflow) (ps : List Param) (p : Parameter) (blocks : List Parameter)
    (l : Local) :
    (supplied p.name ps = some none ∧ configLoop ovf ps (p :: blocks) l = (.null, l)) ∨
    (∃ status, Malforms ovf ps p ∧ p.malformed = .reject status ∧
      configLoop ovf ps (p :: blocks) l =
        (.reject status, l.store (p.args.zip (words ovf ps p)))) ∨
    (Malforms ovf ps p ∧ p.malformed = .localGate ∧
      configLoop ovf ps (p :: blocks) l = configLoop ovf ps blocks
        { l.store (p.args.zip (words ovf ps p)) with
          nCfg := localGate (l.store (p.args.zip (words ovf ps p))).nCfg }) ∨
    (supplied p.name ps ≠ some none ∧ ¬ Malforms ovf ps p ∧
      configLoop ovf ps (p :: blocks) l =
        configLoop ovf ps blocks (l.store (p.args.zip (words ovf ps p)))) := by
  rw [configLoop]
  cases hs : supplied p.name ps with
  | none =>
    have hstore : l.store (p.args.zip (words ovf ps p)) = l := by
      simp [words_absent hs, Local.store, storeAll]
    exact Or.inr (Or.inr (Or.inr ⟨by simp, by simp [Malforms, hs], by rw [hstore]⟩))
  | some v =>
    cases v with
    | none => exact Or.inl ⟨rfl, rfl⟩
    | some value =>
      have hw : sscanf ovf p.fmt.toList value = words ovf ps p := by simp [words, hs]
      have hm : Malforms ovf ps p ↔ _ := malforms_iff hs
      dsimp only
      rw [hw]
      by_cases hlen : (words ovf ps p).length = p.count
      · rw [if_neg (not_not.mpr hlen)]
        exact Or.inr (Or.inr (Or.inr ⟨by simp, fun h => hm.mp h hlen, rfl⟩))
      · rw [if_pos hlen]
        cases hk : p.malformed with
        | reject status => exact Or.inr (Or.inl ⟨status, hm.mpr hlen, rfl, rfl⟩)
        | localGate => exact Or.inr (Or.inr (Or.inl ⟨hm.mpr hlen, rfl, rfl⟩))

/-- How the blocks end does not depend on `n_cfg`. -/
theorem configLoop_done_iff : ∀ (blocks : List Parameter) (l : Local),
    (configLoop ovf ps blocks l).1 = .done ↔
      ∀ p ∈ blocks, supplied p.name ps ≠ some none ∧ ¬ Rejects ovf ps p
  | [], l => by simp [configLoop]
  | p :: blocks, l => by
    rw [List.forall_mem_cons]
    rcases configLoop_cons ovf ps p blocks l with
      ⟨hs, h⟩ | ⟨status, hm, hk, h⟩ | ⟨hm, hk, h⟩ | ⟨hs, hm, h⟩
    · rw [h]
      simp [hs]
    · rw [h]
      simp [Rejects, hm, hk]
    · rw [h, configLoop_done_iff blocks]
      obtain ⟨value, hv, -⟩ := hm
      simp [Rejects, hk, hv]
    · rw [h, configLoop_done_iff blocks]
      simp [Rejects, hs, hm]

/-- A status returned is the one of a block. -/
theorem configLoop_status {status : Fin 11} : ∀ (blocks : List Parameter) (l : Local),
    (configLoop ovf ps blocks l).1 = .reject status → ∃ p ∈ blocks, p.malformed = .reject status
  | [], _, h => by cases h
  | p :: blocks, l, h => by
    have htail : ∀ l', (configLoop ovf ps blocks l').1 = .reject status →
        ∃ q ∈ p :: blocks, q.malformed = .reject status := fun l' h' => by
      obtain ⟨q, hq, hk⟩ := configLoop_status blocks l' h'
      exact ⟨q, List.mem_cons_of_mem _ hq, hk⟩
    rcases configLoop_cons ovf ps p blocks l with
      ⟨-, e⟩ | ⟨status', -, hk, e⟩ | ⟨-, -, e⟩ | ⟨-, -, e⟩
    · rw [e] at h
      cases h
    · rw [e] at h
      cases h
      exact ⟨p, List.mem_cons_self, hk⟩
    · exact htail _ (e ▸ h)
    · exact htail _ (e ▸ h)

theorem configLoop_ne_null : ∀ (blocks : List Parameter) (l : Local),
    (∀ p ∈ blocks, supplied p.name ps ≠ some none) → (configLoop ovf ps blocks l).1 ≠ .null
  | [], _, _ => by simp [configLoop]
  | p :: blocks, l, hnull => by
    rw [List.forall_mem_cons] at hnull
    rcases configLoop_cons ovf ps p blocks l with
      ⟨hs, -⟩ | ⟨status, -, -, h⟩ | ⟨-, -, h⟩ | ⟨-, -, h⟩
    · exact absurd hs hnull.1
    · simp [h]
    · rw [h]
      exact configLoop_ne_null blocks _ hnull.2
    · rw [h]
      exact configLoop_ne_null blocks _ hnull.2

/-- With no null pointer among the values, a rejected parameter makes the blocks return a status. -/
theorem configLoop_reject (blocks : List Parameter) (l : Local)
    (hnull : ∀ p ∈ blocks, supplied p.name ps ≠ some none) (hrej : ∃ p ∈ blocks, Rejects ovf ps p) :
    ∃ status, (configLoop ovf ps blocks l).1 = .reject status := by
  cases he : (configLoop ovf ps blocks l).1 with
  | done =>
    obtain ⟨p, hp, hr⟩ := hrej
    exact absurd hr ((configLoop_done_iff blocks l).mp he p hp).2
  | reject status => exact ⟨status, rfl⟩
  | null => exact absurd he (configLoop_ne_null blocks l hnull)

/-! ### The bytes of `n_cfg` -/

@[simp] theorem Local.store_nCfg (l : Local) (ws : List (ℕ × UInt32)) :
    (l.store ws).nCfg = storeAll ws l.nCfg := rfl

theorem requested_cons (p : Parameter) (blocks : List Parameter) :
    requested ovf ps (p :: blocks) = p.args.zip (words ovf ps p) ++ requested ovf ps blocks := rfl

theorem localGate_frame (c : SysConfig) {k : Fin 103} (h : k.val < 10 ∨ 14 ≤ k.val) :
    localGate c k = c k := by
  have h₁ : k ≠ 10 := fun e => by subst e; simp at h
  have h₂ : k ≠ 11 := fun e => by subst e; simp at h
  have h₃ : k ≠ 12 := fun e => by subst e; simp at h
  have h₄ : k ≠ 13 := fun e => by subst e; simp at h
  simp [localGate, h₁, h₂, h₃, h₄]

/-- The octets the gate gets. -/
theorem localGate_gate (c : SysConfig) : localGate c 10 = c 2 ∧ localGate c 11 = c 3 ∧
    localGate c 12 = c 4 ∧ localGate c 13 = 1 := by
  refine ⟨?_, ?_, ?_, ?_⟩ <;> simp [localGate, SysConfig.ipAddr]

/-- Outside a gate that is not converted, a byte is the last stored over it. -/
theorem configLoop_byte {k : Fin 103} : ∀ (blocks : List Parameter) (l : Local),
    (k.val < 10 ∨ 14 ≤ k.val ∨ ∀ p ∈ blocks, p.malformed = .localGate → ¬ Malforms ovf ps p) →
    (configLoop ovf ps blocks l).1 = .done →
    (configLoop ovf ps blocks l).2.nCfg k = (lastOver k (requested ovf ps blocks)).getD (l.nCfg k)
  | [], _, _, _ => rfl
  | p :: blocks, l, hk, hdone => by
    have hkt : k.val < 10 ∨ 14 ≤ k.val ∨
        ∀ p ∈ blocks, p.malformed = .localGate → ¬ Malforms ovf ps p := by
      rcases hk with hk | hk | hk
      · exact Or.inl hk
      · exact Or.inr (Or.inl hk)
      · exact Or.inr (Or.inr fun q hq => hk q (List.mem_cons_of_mem _ hq))
    rw [requested_cons, lastOver_append]
    have hor : ∀ b, ((lastOver k (requested ovf ps blocks)).or
        (lastOver k (p.args.zip (words ovf ps p)))).getD b =
        (lastOver k (requested ovf ps blocks)).getD
          ((lastOver k (p.args.zip (words ovf ps p))).getD b) := fun b => by
      cases lastOver k (requested ovf ps blocks) <;> rfl
    rcases configLoop_cons ovf ps p blocks l with
      ⟨-, h⟩ | ⟨status, -, -, h⟩ | ⟨hm, hg, h⟩ | ⟨-, -, h⟩
    · rw [h] at hdone
      cases hdone
    · rw [h] at hdone
      cases hdone
    · have hout : k.val < 10 ∨ 14 ≤ k.val := by
        rcases hk with hk | hk | hk
        · exact Or.inl hk
        · exact Or.inr hk
        · exact absurd hm (hk p List.mem_cons_self hg)
      rw [h] at hdone ⊢
      rw [configLoop_byte blocks _ hkt hdone]
      dsimp only
      rw [localGate_frame _ hout, Local.store_nCfg, storeAll_apply, hor]
    · rw [h] at hdone ⊢
      rw [configLoop_byte blocks _ hkt hdone, Local.store_nCfg, storeAll_apply, hor]

/-- The blocks from a member on leave the bytes before it alone. -/
theorem configLoop_frame {k : Fin 103} (blocks : List Parameter) (l : Local)
    (hgate : ∀ p ∈ blocks, p.malformed ≠ .localGate) (hoff : ∀ p ∈ blocks, ∀ a ∈ p.args, k.val < a)
    (hdone : (configLoop ovf ps blocks l).1 = .done) :
    (configLoop ovf ps blocks l).2.nCfg k = l.nCfg k := by
  rw [configLoop_byte blocks l (Or.inr (Or.inr fun p hp hg => absurd hg (hgate p hp))) hdone,
    lastOver_eq_none]
  · rfl
  · rintro w hw ⟨hle, -⟩
    obtain ⟨p, hp, hw⟩ := List.mem_flatMap.mp hw
    have := hoff p hp w.1 (List.of_mem_zip hw).1
    omega

theorem configLoop_pass {p : Parameter} {blocks : List Parameter} {l : Local}
    (hg : p.malformed ≠ .localGate) (hdone : (configLoop ovf ps (p :: blocks) l).1 = .done) :
    ∃ l', configLoop ovf ps (p :: blocks) l = configLoop ovf ps blocks l' := by
  rcases configLoop_cons ovf ps p blocks l with
    ⟨-, h⟩ | ⟨status, -, -, h⟩ | ⟨-, hk, -⟩ | ⟨-, -, h⟩
  · rw [h] at hdone
    cases hdone
  · rw [h] at hdone
    cases hdone
  · exact absurd hk hg
  · exact ⟨_, h⟩

/-- Among parameters of different names each is found. -/
theorem supplied_of_mem {name : String} {v : Option (List Char)} : ∀ {ps : List Param},
    (ps.map Param.name).Nodup → (⟨name.toList, v⟩ : Param) ∈ ps → supplied name ps = some v := by
  have hfind : ∀ ps : List Param, supplied name ps =
      (ps.find? fun p => p.name = name.toList).map Param.value := fun ps => by
    rw [List.find?_eq_map_findFinIdx?_getElem, Option.map_map]
    rfl
  intro ps hnd hmem
  rw [hfind]
  induction ps with
  | nil => cases hmem
  | cons q ps ih =>
    rw [List.map_cons, List.nodup_cons] at hnd
    rcases List.mem_cons.mp hmem with rfl | hmem
    · rw [List.find?_cons_of_pos (by simp)]
      rfl
    · have hq : q.name ≠ name.toList := fun h => hnd.1 (by
        rw [h]
        exact List.mem_map_of_mem hmem)
      rw [List.find?_cons_of_neg (by simpa using hq)]
      exact ih hnd.2 hmem

/-! ### The table of the parameters -/

theorem forall_parameters {P : Parameter → Prop} : (∀ p ∈ parameters, P p) ↔
    P localIp ∧ P mask ∧ P gate ∧ P lport ∧ P rip ∧ P rport ∧
      (∀ chl, P (baudRate chl)) ∧ (∀ chl, P (parity chl)) ∧ P cycle := by
  simp [parameters, or_imp, forall_and]

theorem width_pos : ∀ p ∈ parameters, 0 < p.width ∧ p.width ≤ 4 ∧ 0 < p.count := by decide

/-- The members in the order of the blocks have ascending addresses. -/
theorem args_ascending : (parameters.flatMap Parameter.args).Pairwise (· < ·) := by decide

/-- The next member starts behind the member. -/
theorem args_next : ∀ p ∈ parameters, ∀ i < p.count, ∀ q ∈ parameters, ∀ a ∈ q.args,
    p.off + p.width * i < a → p.off + p.width * i + p.width ≤ a := by decide

/-- Only `gate` is not rejected, and its members are the ones at 10 to 13. -/
theorem gate_bytes : ∀ p ∈ parameters, p = gate ∨ (p.malformed ≠ .localGate ∧
    ∀ i < p.count, ∀ j < p.width, p.off + p.width * i + j < 10 ∨ 14 ≤ p.off + p.width * i + j) := by
  decide

/-- A byte belongs to the members of the parameter. -/
def Parameter.Member (p : Parameter) (k : ℕ) : Prop := p.off ≤ k ∧ k < p.off + p.width * p.count

instance (p : Parameter) (k : ℕ) : Decidable (p.Member k) := inferInstanceAs (Decidable (_ ∧ _))

/-- A byte of the members is byte `j` of member `i`. -/
theorem Parameter.Member.index {p : Parameter} {k : ℕ} (h : p.Member k) :
    ∃ i < p.count, ∃ j < p.width, k = p.off + p.width * i + j := by
  obtain ⟨hle, hlt⟩ := h
  have hw : 0 < p.width := Nat.pos_of_ne_zero fun h0 => by rw [h0] at hlt; omega
  refine ⟨(k - p.off) / p.width, Nat.div_lt_of_lt_mul (by omega), (k - p.off) % p.width,
    Nat.mod_lt _ hw, ?_⟩
  have := Nat.div_add_mod (k - p.off) p.width
  omega

/-- Behind the header every byte belongs to a parameter. -/
theorem member_of_byte : ∀ k : Fin 103, k.val < 2 ∨ ∃ p ∈ parameters, p.Member k := by decide

theorem two_le_off : ∀ p ∈ parameters, 2 ≤ p.off := by decide

theorem reject_status : ∀ p ∈ parameters, ∀ s, p.malformed = .reject s → 1 ≤ s ∧ s ≤ 8 := by decide

theorem zip_fst_sublist {α β : Type} : ∀ (as : List α) (bs : List β),
    ((as.zip bs).map Prod.fst).Sublist as
  | [], _ => List.nil_sublist _
  | _ :: _, [] => List.nil_sublist _
  | a :: as, _ :: bs => (zip_fst_sublist as bs).cons_cons a

theorem requested_sublist : ∀ blocks : List Parameter,
    ((requested ovf ps blocks).map Prod.fst).Sublist (blocks.flatMap Parameter.args)
  | [] => List.Sublist.refl _
  | p :: blocks => by
    rw [requested_cons, List.map_append, List.flatMap_cons]
    exact (zip_fst_sublist _ _).append (requested_sublist blocks)

/-- The stores of a request ascend. -/
theorem requested_ascending : ((requested ovf ps parameters).map Prod.fst).Pairwise (· < ·) :=
  args_ascending.sublist (requested_sublist parameters)

theorem parsed_eq_some {p : Parameter} {vals : List UInt32} (h : parsed ovf ps p = some vals) :
    words ovf ps p = vals ∧ vals.length = p.count := by
  unfold parsed at h
  split at h
  · rename_i hlen
    cases h
    exact ⟨rfl, hlen⟩
  · cases h

/-- A parameter that is given and accepted has its words. -/
theorem parsed_given {p : Parameter} (hgiven : supplied p.name ps ≠ none)
    (hnull : supplied p.name ps ≠ some none) (hm : ¬ Malforms ovf ps p) :
    parsed ovf ps p = some (words ovf ps p) := by
  cases hs : supplied p.name ps with
  | none => exact absurd hs hgiven
  | some v =>
    cases v with
    | none => exact absurd hs hnull
    | some value =>
      rw [malforms_iff hs, not_not] at hm
      exact if_pos hm

theorem parsed_not_malforms {p : Parameter} {vals : List UInt32} (h : parsed ovf ps p = some vals) :
    ¬ Malforms ovf ps p := by
  obtain ⟨hw, hlen⟩ := parsed_eq_some h
  rintro ⟨value, hv, hne⟩
  exact (malforms_iff hv).mp ⟨value, hv, hne⟩ (by rw [hw, hlen])

/-- The last store over a byte of a converted parameter is its own. -/
theorem lastOver_converted {p : Parameter} (hp : p ∈ parameters) {vals : List UInt32}
    (h : parsed ovf ps p = some vals) {i j : ℕ} (hi : i < p.count) (hj : j < p.width) :
    lastOver (p.off + p.width * i + j) (requested ovf ps parameters) =
      some (byte (vals.getD i 0) j) := by
  obtain ⟨hw, hlen⟩ := parsed_eq_some h
  have hcov : Covers (p.off + p.width * i + j) (p.off + p.width * i, vals.getD i 0) := by
    have := width_pos p hp
    constructor <;> dsimp only <;> omega
  have harg : p.args[i]? = some (p.off + p.width * i) := by simp [Parameter.args, hi]
  have hval : vals[i]? = some (vals.getD i 0) := by simp [hlen, hi]
  have hmem : (p.off + p.width * i, vals.getD i 0) ∈ requested ovf ps parameters :=
    List.mem_flatMap.mpr ⟨p, hp, List.mem_of_getElem?
      (by rw [hw]; exact List.getElem?_zip_eq_some.mpr ⟨harg, hval⟩)⟩
  have hbyte := lastOver_ascending hcov requested_ascending hmem fun w hw hlt => by
    obtain ⟨q, hq, hw⟩ := List.mem_flatMap.mp hw
    have := args_next p hp i hi q hq w.1 (List.of_mem_zip hw).1 hlt
    omega
  rw [hbyte]
  dsimp only
  rw [Nat.add_sub_cancel_left]

/-! ### The request that is accepted -/

section Accepted

variable {g : SysConfig} (hdone : (configLoop ovf ps parameters ⟨g, []⟩).1 = .done)
include hdone

/-- A byte of a parameter other than a gate that does not convert is the last stored over it. -/
theorem stored_byte {p : Parameter} (hp : p ∈ parameters) (hm : ¬ Malforms ovf ps p) {i j : ℕ}
    (hi : i < p.count) (hj : j < p.width) {k : Fin 103} (hk : k.val = p.off + p.width * i + j) :
    (configLoop ovf ps parameters ⟨g, []⟩).2.nCfg k =
      (lastOver k (requested ovf ps parameters)).getD (g k) := by
  refine configLoop_byte parameters _ ?_ hdone
  rcases gate_bytes p hp with rfl | ⟨-, hb⟩
  · refine Or.inr (Or.inr fun q hq hg => ?_)
    rcases gate_bytes q hq with rfl | ⟨hne, -⟩
    · exact hm
    · exact absurd hg hne
  · rw [← or_assoc, hk]
    exact Or.inl (hb i hi j hj)

/-- A byte of a parameter that is given is the byte of its value. -/
theorem converted_byte {p : Parameter} (hp : p ∈ parameters) {vals : List UInt32}
    (h : parsed ovf ps p = some vals) {i j : ℕ} (hi : i < p.count) (hj : j < p.width)
    {k : Fin 103} (hk : k.val = p.off + p.width * i + j) :
    (configLoop ovf ps parameters ⟨g, []⟩).2.nCfg k = byte (vals.getD i 0) j := by
  rw [stored_byte hdone hp (parsed_not_malforms h) hi hj hk, hk, lastOver_converted hp h hi hj]
  rfl

/-- A gate that does not convert is what the local IP has become, with a last octet of 1. -/
theorem malformed_gate (hm : Malforms ovf ps gate) :
    let c := (configLoop ovf ps parameters ⟨g, []⟩).2.nCfg
    c 10 = c 2 ∧ c 11 = c 3 ∧ c 12 = c 4 ∧ c 13 = 1 := by
  let rest := [lport, rip, rport] ++ (List.finRange 16).map baudRate ++ (List.finRange 16).map parity ++ [cycle]
  have hsplit : parameters = localIp :: mask :: gate :: rest := rfl
  have hrest : ∀ p ∈ rest, p.malformed ≠ .localGate ∧ ∀ a ∈ p.args, 14 ≤ a := by decide
  rw [hsplit] at hdone ⊢
  obtain ⟨l₁, h₁⟩ := configLoop_pass (by decide) hdone
  rw [h₁] at hdone ⊢
  obtain ⟨l₂, h₂⟩ := configLoop_pass (by decide) hdone
  rw [h₂] at hdone ⊢
  rcases configLoop_cons ovf ps gate rest l₂ with ⟨-, h⟩ | ⟨status, -, hk, -⟩ | ⟨-, -, h⟩ | ⟨-, hn, -⟩
  · rw [h] at hdone
    cases hdone
  · cases hk
  · rw [h] at hdone ⊢
    have hframe : ∀ k : Fin 103, k.val < 14 → (configLoop ovf ps rest _).2.nCfg k = _ := fun k hk =>
      configLoop_frame rest _ (fun p hp => (hrest p hp).1)
        (fun p hp a ha => lt_of_lt_of_le hk ((hrest p hp).2 a ha)) hdone
    obtain ⟨g₁, g₂, g₃, g₄⟩ := localGate_gate (l₂.store (gate.args.zip (words ovf ps gate))).nCfg
    have hlow : ∀ k : Fin 103, k.val < 10 → localGate _ k = _ := fun k hk =>
      localGate_frame (l₂.store (gate.args.zip (words ovf ps gate))).nCfg (Or.inl hk)
    dsimp only
    rw [hframe 10 (by decide), hframe 11 (by decide), hframe 12 (by decide), hframe 13 (by decide),
      hframe 2 (by decide), hframe 3 (by decide), hframe 4 (by decide)]
    dsimp only
    rw [g₁, g₂, g₃, g₄, hlow 2 (by decide), hlow 3 (by decide), hlow 4 (by decide)]
    exact ⟨rfl, rfl, rfl, rfl⟩
  · exact absurd hm hn

end Accepted

end Blocks

end CgiSsi
end Serial2Ethernet
