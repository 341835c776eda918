/-
# The request as a partial update

`updated` is what a request is meant to do: the members of the parameters
that are given become their values, the others stay. `Config_Handler` starts
from a local structure that is never filled from the current configuration,
so a member whose parameter is absent is stored as the local structure holds
it, or as the conversions of the member before it spill over into it.
`atomicUpdate_iff` says for which requests that makes no difference.
-/
import Serial2Ethernet.Hardware.ConfigStore
import Serial2Ethernet.Http.Request

namespace Serial2Ethernet
namespace CgiSsi

open Lib Config Flash Httpd

section Update

variable (ovf : Overflow) (ps : List Param)

instance (p : Parameter) : Decidable (Malforms ovf ps p) :=
  match h : supplied p.name ps with
  | none => isFalse fun ⟨_, hv, _⟩ => by simp [h] at hv
  | some none => isFalse fun ⟨_, hv, _⟩ => by simp [h] at hv
  | some (some _) => decidable_of_iff _ (malforms_iff h).symm

/-- The octets of a parameter, or the ones there were. -/
def octets (p : Parameter) (old : Fin 4 → UInt8) : Fin 4 → UInt8 := fun i =>
  (parsed ovf ps p).elim (old i) fun vals => (vals.getD i 0).toUInt8

/-- The word of a parameter, or the one there was. -/
def word (p : Parameter) (old : UInt32) : UInt32 :=
  (parsed ovf ps p).elim old fun vals => vals.getD 0 0

/-- The configuration with the members of the parameters that are given
replaced. A gate that does not convert becomes the local IP with a last octet
of 1. -/
def updatedFields (c : SysConfig) : SysConfig.Fields where
  header := fun _ => 0xaa
  ipAddr := octets ovf ps localIp c.ipAddr
  ipMask := octets ovf ps mask c.ipMask
  ipGate :=
    if Malforms ovf ps gate then
      let ip := octets ovf ps localIp c.ipAddr
      ![ip 0, ip 1, ip 2, 1]
    else octets ovf ps gate c.ipGate
  listenPort := (word ovf ps lport c.listenPort.toUInt32).toUInt16
  remoteIp := octets ovf ps rip c.remoteIp
  remotePort := (word ovf ps rport c.remotePort.toUInt32).toUInt16
  baudRates := fun chl => word ovf ps (baudRate chl) (c.baudRates chl)
  parities := fun chl => (word ovf ps (parity chl) (c.parities chl).toUInt32).toUInt8
  queryCycleS := (word ovf ps cycle c.queryCycleS.toUInt32).toUInt8

def updated (c : SysConfig) : SysConfig := SysConfig.ofFields (updatedFields ovf ps c)

end Update

section Bytes

variable {ovf : Overflow} {ps : List Param} {c : SysConfig}

theorem octets_byte {p : Parameter} {old : Fin 4 → UInt8} (i : Fin 4) {k : Fin 103} (hold : old i = c k) :
    octets ovf ps p old i = (parsed ovf ps p).elim (c k) fun vals => byte (vals.getD i 0) 0 := by
  unfold octets
  cases parsed ovf ps p with
  | none => exact hold
  | some vals => exact (byte_zero _).symm

theorem word_byte {p : Parameter} {old : UInt32} {j : ℕ} {k : Fin 103} (hold : byte old j = c k) :
    byte (word ovf ps p old) j = (parsed ovf ps p).elim (c k) fun vals => byte (vals.getD 0 0) j := by
  unfold word
  cases parsed ovf ps p with
  | none => exact hold
  | some vals => rfl

/-- A byte of a parameter is the byte of its value, or stays. -/
theorem updated_byte : ∀ p ∈ parameters, ¬ Malforms ovf ps p → ∀ i < p.count, ∀ j < p.width,
    ∀ k : Fin 103, k.val = p.off + p.width * i + j → updated ovf ps c k =
      (parsed ovf ps p).elim (c k) fun vals => byte (vals.getD i 0) j := by
  have hquad : ∀ {off : ℕ} {i j : ℕ}, j < 1 → ∀ {k : Fin 103}, k.val = off + 1 * i + j →
      j = 0 ∧ k.val = off + i := fun hj k hk => by omega
  rw [forall_parameters]
  refine ⟨?_, ?_, ?_, ?_, ?_, ?_, fun chl => ?_, fun chl => ?_, ?_⟩ <;>
    intro hm i hi j hj k hk
  · obtain ⟨rfl, hk'⟩ : j = 0 ∧ k.val = 2 + i := hquad hj hk
    rw [updated, SysConfig.ofFields_ipAddr _ ⟨i, hi⟩ hk']
    exact octets_byte ⟨i, hi⟩ (congrArg c (Fin.ext hk'.symm))
  · obtain ⟨rfl, hk'⟩ : j = 0 ∧ k.val = 6 + i := hquad hj hk
    rw [updated, SysConfig.ofFields_ipMask _ ⟨i, hi⟩ hk']
    exact octets_byte ⟨i, hi⟩ (congrArg c (Fin.ext hk'.symm))
  · obtain ⟨rfl, hk'⟩ : j = 0 ∧ k.val = 10 + i := hquad hj hk
    have hgate : (updatedFields ovf ps c).ipGate = octets ovf ps gate c.ipGate := if_neg hm
    rw [updated, SysConfig.ofFields_ipGate _ ⟨i, hi⟩ hk', hgate]
    exact octets_byte ⟨i, hi⟩ (congrArg c (Fin.ext hk'.symm))
  · obtain rfl : i = 0 := Nat.lt_one_iff.mp hi
    rw [updated, SysConfig.ofFields_listenPort _ hj hk]
    exact (byte_toUInt16 _ hj).trans (word_byte (c.listenPort_byte hj hk))
  · obtain ⟨rfl, hk'⟩ : j = 0 ∧ k.val = 16 + i := hquad hj hk
    rw [updated, SysConfig.ofFields_remoteIp _ ⟨i, hi⟩ hk']
    exact octets_byte ⟨i, hi⟩ (congrArg c (Fin.ext hk'.symm))
  · obtain rfl : i = 0 := Nat.lt_one_iff.mp hi
    rw [updated, SysConfig.ofFields_remotePort _ hj hk]
    exact (byte_toUInt16 _ hj).trans (word_byte (c.remotePort_byte hj hk))
  · obtain rfl : i = 0 := Nat.lt_one_iff.mp hi
    rw [updated, SysConfig.ofFields_baudRates _ chl hj hk]
    exact word_byte (c.baudRates_byte chl hj hk)
  · obtain rfl : i = 0 := Nat.lt_one_iff.mp hi
    obtain ⟨rfl, hk'⟩ : j = 0 ∧ k.val = 86 + chl + 0 := hquad hj hk
    rw [updated, SysConfig.ofFields_parities _ chl hk']
    exact (byte_zero _).symm.trans
      (word_byte ((byte_toUInt8 _).trans (congrArg c (Fin.ext hk'.symm))))
  · obtain rfl : i = 0 := Nat.lt_one_iff.mp hi
    obtain ⟨rfl, hk'⟩ : j = 0 ∧ k.val = 102 + 0 := hquad hj hk
    rw [updated, SysConfig.ofFields_queryCycleS _ hk']
    exact (byte_zero _).symm.trans
      (word_byte ((byte_toUInt8 _).trans (congrArg c (Fin.ext hk'.symm))))

theorem updated_header {k : Fin 103} (hk : k.val < 2) : updated ovf ps c k = 0xaa :=
  SysConfig.ofFields_header (updatedFields ovf ps c) ⟨k, hk⟩ rfl

theorem updated_gate (hm : Malforms ovf ps gate) : updated ovf ps c 10 = updated ovf ps c 2 ∧
    updated ovf ps c 11 = updated ovf ps c 3 ∧ updated ovf ps c 12 = updated ovf ps c 4 ∧
    updated ovf ps c 13 = 1 := by
  have hgate : (updatedFields ovf ps c).ipGate = _ := if_pos hm
  have hg := fun (i : Fin 4) (k : Fin 103) (hk : k.val = 10 + i) =>
    (SysConfig.ofFields_ipGate (updatedFields ovf ps c) i hk).trans (congrFun hgate i)
  have hip := fun (i : Fin 4) (k : Fin 103) (hk : k.val = 2 + i) =>
    (SysConfig.ofFields_ipAddr (updatedFields ovf ps c) i hk).symm
  exact ⟨(hg 0 10 rfl).trans (hip 0 2 rfl), (hg 1 11 rfl).trans (hip 1 3 rfl),
    (hg 2 12 rfl).trans (hip 2 4 rfl), hg 3 13 rfl⟩

theorem parsed_absent {p : Parameter} (hp : p ∈ parameters) (h : supplied p.name ps = none) :
    parsed ovf ps p = none := by
  have := width_pos p hp
  rw [parsed, words_absent h, if_neg (by rw [List.length_nil]; omega)]

end Bytes

/-! ### The handler -/

section Handler

variable {ovf : Overflow} {ps : List Param} (g : SysConfig) (w : Web)

/-- The handler by the end of its blocks. -/
theorem configHandler_eq (out : Outcomes) : configHandler ovf ps out g w =
    match (configLoop ovf ps parameters ⟨g, []⟩).1 with
    | .null => .error .null
    | .reject s => .ok (some (configShtml, { w with statusIndex := s }))
    | .done => .ok ((setConfig out (configLoop ovf ps parameters ⟨g, []⟩).2.nCfg w.store).map
        fun st => (configShtml, ⟨st, 9⟩)) := by
  unfold configHandler
  obtain ⟨e, l⟩ := configLoop ovf ps parameters ⟨g, []⟩
  cases e <;> rfl

theorem configHandler_reject {s : Fin 11}
    (h : (configLoop ovf ps parameters ⟨g, []⟩).1 = .reject s) (out : Outcomes) :
    configHandler ovf ps out g w = .ok (some (configShtml, { w with statusIndex := s })) := by
  rw [configHandler_eq, h]

/-- A request that does not get behind its blocks changes nothing. -/
theorem configHandler_refuses {out : Outcomes} {page : String} {w' : Web}
    (hend : (configLoop ovf ps parameters ⟨g, []⟩).1 ≠ .done)
    (hok : configHandler ovf ps out g w = .ok (some (page, w'))) :
    1 ≤ w'.statusIndex ∧ w'.statusIndex ≤ 8 ∧ w'.store = w.store := by
  cases he : (configLoop ovf ps parameters ⟨g, []⟩).1 with
  | done => exact absurd he hend
  | null =>
    rw [configHandler_eq, he] at hok
    cases hok
  | reject s =>
    rw [configHandler_reject g w he] at hok
    cases hok
    obtain ⟨p, hp, hs⟩ := configLoop_status parameters _ he
    obtain ⟨h1, h8⟩ := reject_status p hp s hs
    exact ⟨h1, h8, rfl⟩

/-- Status 9 is left by the last block only. -/
theorem statusIndex_ne_nine {out : Outcomes} {page : String} {w' : Web}
    (hend : (configLoop ovf ps parameters ⟨g, []⟩).1 ≠ .done)
    (hok : configHandler ovf ps out g w = .ok (some (page, w'))) : w'.statusIndex ≠ 9 := by
  have h8 := (configHandler_refuses g w hend hok).2.1
  intro h9
  rw [h9] at h8
  exact absurd h8 (by decide)

/-- An accepted request is stored. -/
theorem configHandler_done (h : (configLoop ovf ps parameters ⟨g, []⟩).1 = .done) :
    ∃ st, configHandler ovf ps allComplete g w = .ok (some (configShtml, ⟨st, 9⟩)) ∧
      st.sCfg = withHeader (configLoop ovf ps parameters ⟨g, []⟩).2.nCfg ∧
      record st.flash.mem = withHeader (configLoop ovf ps parameters ⟨g, []⟩).2.nCfg ∧
      ∀ ram, prepareConfig allComplete (reboot ram st) = some ⟨st.sCfg, (reboot ram st).flash⟩ := by
  obtain ⟨st, -, hset, hcfg, hrec, -⟩ :=
    setConfig_persists (configLoop ovf ps parameters ⟨g, []⟩).2.nCfg (fun _ => 0) w.store
  refine ⟨st, ?_, hcfg, hrec, fun ram => ?_⟩
  · rw [configHandler_eq, h]
    dsimp only
    rw [hset]
    rfl
  · have hS : Stored (reboot ram st).flash.mem := stored_withHeader hrec
    rw [prepareConfig_stored _ hS, hcfg, ← hrec]
    rfl

variable {g}

section Done

variable (c : SysConfig) (hdone : (configLoop ovf ps parameters ⟨g, []⟩).1 = .done)

include hdone

/-- A parameter that is not malformed is stored as in the update, if it is
given or its bytes happen to be left as they were. -/
theorem nCfg_eq_updated {p : Parameter} (hp : p ∈ parameters) (hm : ¬ Malforms ovf ps p)
    (h : supplied p.name ps = none → ∀ k : Fin 103, p.Member k →
      (lastOver k (requested ovf ps parameters)).getD (g k) = c k) {k : Fin 103} (hmem : p.Member k) :
    (configLoop ovf ps parameters ⟨g, []⟩).2.nCfg k = updated ovf ps c k := by
  have hends := (configLoop_done_iff parameters ⟨g, []⟩).mp hdone
  obtain ⟨i, hi, j, hj, hk⟩ := hmem.index
  rw [updated_byte p hp hm i hi j hj k hk]
  cases hpar : parsed ovf ps p with
  | some vals => exact converted_byte hdone hp hpar hi hj hk
  | none =>
    have habs : supplied p.name ps = none := by
      by_contra hgiven
      rw [parsed_given hgiven (hends p hp).1 hm] at hpar
      cases hpar
    rw [stored_byte hdone hp hm hi hj hk]
    exact h habs k hmem

/-- A malformed gateway is stored as in the update, if the local address is. -/
theorem nCfg_gate_eq_updated (hm : Malforms ovf ps gate)
    (hlocal : ∀ k : Fin 103, localIp.Member k →
      (configLoop ovf ps parameters ⟨g, []⟩).2.nCfg k = updated ovf ps c k)
    {k : Fin 103} (hmem : gate.Member k) :
    (configLoop ovf ps parameters ⟨g, []⟩).2.nCfg k = updated ovf ps c k := by
  obtain ⟨h₁, h₂, h₃, h₄⟩ := malformed_gate hdone hm
  obtain ⟨u₁, u₂, u₃, u₄⟩ := updated_gate (c := c) hm
  obtain ⟨i, hi, j, hj, hk⟩ := hmem.index
  obtain rfl : j = 0 := Nat.lt_one_iff.mp hj
  have hi4 : i < 4 := hi
  interval_cases i
  · obtain rfl : k = 10 := Fin.ext hk
    rw [h₁, u₁, hlocal 2 (by decide)]
  · obtain rfl : k = 11 := Fin.ext hk
    rw [h₂, u₂, hlocal 3 (by decide)]
  · obtain rfl : k = 12 := Fin.ext hk
    rw [h₃, u₃, hlocal 4 (by decide)]
  · obtain rfl : k = 13 := Fin.ext hk
    rw [h₄, u₄]

/-- An accepted request stores the update if and only if each byte of an absent
parameter happens to be left as it was. -/
theorem stored_eq_updated_iff :
    withHeader (configLoop ovf ps parameters ⟨g, []⟩).2.nCfg = updated ovf ps c ↔
      ∀ p ∈ parameters, supplied p.name ps = none → ∀ k : Fin 103, p.Member k →
        (lastOver k (requested ovf ps parameters)).getD (g k) = c k := by
  have hends := (configLoop_done_iff parameters ⟨g, []⟩).mp hdone
  have hhead : ∀ p ∈ parameters, ∀ k : Fin 103, p.Member k → ∀ c : SysConfig, withHeader c k = c k := by
    rintro p hp k ⟨hle, -⟩ c
    have := two_le_off p hp
    exact if_neg (by omega)
  constructor
  · intro h p hp habs k hmem
    obtain ⟨i, hi, j, hj, hk⟩ := hmem.index
    have hm : ¬ Malforms ovf ps p := fun ⟨_, hv, _⟩ => by simp [habs] at hv
    have hkk := congrFun h k
    rw [hhead p hp k hmem, updated_byte p hp hm i hi j hj k hk, parsed_absent hp habs,
      stored_byte hdone hp hm hi hj hk] at hkk
    exact hkk
  · intro h
    have hip : ¬ Malforms ovf ps localIp := fun hm =>
      (hends localIp (by decide)).2 ⟨hm, by decide⟩
    funext k
    rcases member_of_byte k with hk | ⟨p, hp, hmem⟩
    · rw [updated_header hk, withHeader, if_pos hk]
    · rw [hhead p hp k hmem]
      by_cases hm : Malforms ovf ps p
      · rcases gate_bytes p hp with rfl | ⟨hg, -⟩
        · have hlip : localIp ∈ parameters := by decide
          exact nCfg_gate_eq_updated c hdone hm
            (fun k hk => nCfg_eq_updated c hdone hlip hip (h localIp hlip) hk) hmem
        · exact absurd ⟨hm, hg⟩ (hends p hp).2
      · exact nCfg_eq_updated c hdone hp hm (h p hp) hmem

end Done

end Handler

/-! ### Atomicity -/

/-- The parameters of a request whose values are all strings. -/
def strings (kvs : List (List Char × List Char)) : List Param := kvs.map fun kv => ⟨kv.1, some kv.2⟩

/-- The request is rejected and changes nothing, or is accepted and stores the
configuration with the given parameters replaced. -/
def AtomicUpdate (ovf : Overflow) (g : SysConfig) (ps : List Param) (w : Web) : Prop :=
  ∃ w', configHandler ovf ps allComplete g w = .ok (some (configShtml, w')) ∧
    ((1 ≤ w'.statusIndex ∧ w'.statusIndex ≤ 8 ∧ w'.store = w.store) ∨
      (w'.statusIndex = 9 ∧ w'.store.sCfg = updated ovf ps w.store.sCfg ∧
        record w'.store.flash.mem = updated ovf ps w.store.sCfg))

section Atomic

variable (ovf : Overflow) (g : SysConfig) (w : Web)

theorem supplied_strings (name : String) (kvs : List (List Char × List Char)) :
    supplied name (strings kvs) ≠ some none := by
  unfold supplied
  cases findCGIParameter name (strings kvs) with
  | none => simp
  | some i => simp [strings]

theorem atomicUpdate_done {ps : List Param}
    (hdone : (configLoop ovf ps parameters ⟨g, []⟩).1 = .done) :
    AtomicUpdate ovf g ps w ↔ ∀ p ∈ parameters, supplied p.name ps = none →
      ∀ k : Fin 103, p.Member k →
        (lastOver k (requested ovf ps parameters)).getD (g k) = w.store.sCfg k := by
  rw [← stored_eq_updated_iff w.store.sCfg hdone]
  obtain ⟨st, hst, hcfg, hrec, -⟩ := configHandler_done g w hdone
  constructor
  · rintro ⟨w', hw', h⟩
    rw [hst] at hw'
    cases hw'
    rcases h with ⟨-, h9, -⟩ | ⟨-, hc, -⟩
    · exact absurd h9 (show ¬ (9 : Fin 11) ≤ 8 by decide)
    · rw [← hcfg, hc]
  · intro h
    exact ⟨_, hst, Or.inr ⟨rfl, by rw [hcfg, h], by rw [hrec, h]⟩⟩

/-- **A request is an atomic partial update exactly when** it is rejected, or
every byte of every absent parameter happens to hold the current
configuration's byte: the byte of the conversion that spills over it, or else
the first content of `n_cfg`. -/
theorem atomicUpdate_iff (kvs : List (List Char × List Char)) :
    AtomicUpdate ovf g (strings kvs) w ↔
      (∃ p ∈ parameters, Rejects ovf (strings kvs) p) ∨
      ∀ p ∈ parameters, supplied p.name (strings kvs) = none → ∀ k : Fin 103, p.Member k →
        (lastOver k (requested ovf (strings kvs) parameters)).getD (g k) = w.store.sCfg k := by
  by_cases hrej : ∃ p ∈ parameters, Rejects ovf (strings kvs) p
  · obtain ⟨s, hs⟩ := configLoop_reject parameters ⟨g, []⟩ (fun p _ => supplied_strings p.name kvs) hrej
    obtain ⟨p, hp, hk⟩ := configLoop_status parameters _ hs
    obtain ⟨h1, h8⟩ := reject_status p hp s hk
    exact iff_of_true ⟨_, configHandler_reject g w hs _, Or.inl ⟨h1, h8, rfl⟩⟩ (Or.inl hrej)
  · have hdone : (configLoop ovf (strings kvs) parameters ⟨g, []⟩).1 = .done :=
      (configLoop_done_iff parameters _).mpr fun p hp =>
        ⟨supplied_strings p.name kvs, fun h => hrej ⟨p, hp, h⟩⟩
    rw [atomicUpdate_done ovf g w hdone, or_iff_right hrej]

/-- A request without parameters stores the local structure as it is. -/
theorem not_atomicUpdate : ¬ AtomicUpdate (fun _ _ => 0) (fun _ => 0) (strings [])
    ⟨⟨defaults, ⟨fun _ => 0xFF, 0⟩⟩, 0⟩ := by
  have habs : ∀ name, supplied name (strings []) = none := fun _ => rfl
  have hdone : (configLoop (fun _ _ => 0) (strings []) parameters ⟨fun _ => 0, []⟩).1 = .done :=
    (configLoop_done_iff parameters _).mpr fun p _ => ⟨supplied_strings p.name [],
      fun ⟨⟨_, hv, _⟩, _⟩ => absurd ((habs p.name).symm.trans hv) (by simp)⟩
  rw [atomicUpdate_done _ _ _ hdone]
  intro h
  exact absurd (h localIp (by decide) (habs _) 2 (by decide)) (by decide)

end Atomic

end CgiSsi
end Serial2Ethernet
