/-
# The ranges of the numbers

The handler asks `sscanf` how many numbers it has read, and nothing else. What
is stored of a number is its low bytes, as many as the member has: 300 in an
octet is 44. The page documents the parities 0, 1 and 2 and a cycle of 1 to
255 seconds; the other members can hold what their type can.

`faithfulOrRefused_iff` says which requests are refused or stored as they are
written. A gateway that does not convert is not refused: the local IP with a
last octet of 1 takes its place.
-/
import Serial2Ethernet.Http.Form
import Serial2Ethernet.Http.Stored

namespace Serial2Ethernet
namespace CgiSsi

open Lib Config Flash Httpd

/-! ### The numbers and the members -/

/-- The numbers read from the value of the parameter, with their conversions. -/
def conversions (ps : List Param) (p : Parameter) : List (Conv × ℤ) :=
  match supplied p.name ps with
  | some (some value) => scanned p.fmt.toList value
  | _ => []

/-- The numbers supplied for the members of the parameter. -/
def numbers (ps : List Param) (p : Parameter) : List ℤ := (conversions ps p).map Prod.snd

/-- The smallest and the largest number of a parameter: as the page documents
them, or those its members can hold. -/
def Parameter.range (p : Parameter) : ℤ × ℤ :=
  if p = cycle then (1, 255)
  else if p ∈ (List.finRange 16).map parity then (0, 2)
  else (0, 256 ^ p.width - 1)

def Parameter.InRange (p : Parameter) (v : ℤ) : Prop := p.range.1 ≤ v ∧ v ≤ p.range.2

instance (p : Parameter) (v : ℤ) : Decidable (p.InRange v) := inferInstanceAs (Decidable (_ ∧ _))

/-- Byte `k` of a configuration. -/
def byteAt (c : SysConfig) (k : ℕ) : UInt8 := if h : k < 103 then c ⟨k, h⟩ else 0

/-- Member `i` of the parameter, as a number. -/
def member (c : SysConfig) (p : Parameter) (i : ℕ) : ℕ :=
  ofBytes ((List.range p.width).map fun j => byteAt c (p.off + p.width * i + j))

section Members

variable (c : SysConfig) {p : Parameter}

theorem byteAt_eq {k : ℕ} (h : k < 103) : byteAt c k = c ⟨k, h⟩ := dif_pos h

theorem member_octet (hw : p.width = 1) {i : ℕ} (h : p.off + i < 103) :
    member c p i = (c ⟨p.off + i, h⟩).toNat := by
  unfold member
  rw [hw]
  simp [List.range_succ, ofBytes, byteAt_eq c h]

theorem member_word (hw : p.width = 4) (h : p.off + 3 < 103) :
    member c p 0 = (u32 (c ⟨p.off, by omega⟩) (c ⟨p.off + 1, by omega⟩) (c ⟨p.off + 2, by omega⟩)
      (c ⟨p.off + 3, h⟩)).toNat := by
  unfold member
  rw [hw, toNat_u32]
  simp only [List.range_succ, List.range_zero, List.nil_append, List.cons_append, List.map_cons, List.map_nil,
    ofBytes, Nat.mul_zero, Nat.add_zero]
  rw [byteAt_eq c (by omega), byteAt_eq c (by omega), byteAt_eq c (by omega), byteAt_eq c h]
  omega

theorem member_baudRate (chl : Fin 16) : member c (baudRate chl) 0 = (c.baudRates chl).toNat := by
  have h₁ : (⟨23 + 4 * chl, by omega⟩ : Fin 103) = ⟨22 + 4 * chl + 1, by omega⟩ := Fin.ext (by dsimp only; omega)
  have h₂ : (⟨24 + 4 * chl, by omega⟩ : Fin 103) = ⟨22 + 4 * chl + 2, by omega⟩ := Fin.ext (by dsimp only; omega)
  have h₃ : (⟨25 + 4 * chl, by omega⟩ : Fin 103) = ⟨22 + 4 * chl + 3, by omega⟩ := Fin.ext (by dsimp only; omega)
  unfold SysConfig.baudRates
  rw [h₁, h₂, h₃]
  exact member_word c rfl (by show 22 + 4 * chl.val + 3 < 103; omega)

/-- The members are the fields of the configuration. -/
theorem member_fields :
    (∀ i : Fin 4, member c localIp i = (c.ipAddr i).toNat) ∧ (∀ i : Fin 4, member c mask i = (c.ipMask i).toNat) ∧
      (∀ i : Fin 4, member c gate i = (c.ipGate i).toNat) ∧ member c lport 0 = c.listenPort.toNat ∧
      (∀ i : Fin 4, member c rip i = (c.remoteIp i).toNat) ∧ member c rport 0 = c.remotePort.toNat ∧
      (∀ chl, member c (baudRate chl) 0 = (c.baudRates chl).toNat) ∧
      (∀ chl, member c (parity chl) 0 = (c.parities chl).toNat) ∧ member c cycle 0 = c.queryCycleS.toNat := by
  refine ⟨fun i => ?_, fun i => ?_, fun i => ?_, ?_, fun i => ?_, ?_, member_baudRate c, fun chl => ?_, ?_⟩
  · exact member_octet c rfl (by show 2 + i.val < 103; omega)
  · exact member_octet c rfl (by show 6 + i.val < 103; omega)
  · exact member_octet c rfl (by show 10 + i.val < 103; omega)
  · rw [SysConfig.listenPort, toNat_u16]
    rfl
  · exact member_octet c rfl (by show 16 + i.val < 103; omega)
  · rw [SysConfig.remotePort, toNat_u16]
    rfl
  · exact member_octet c rfl (by show 86 + chl.val + 0 < 103; omega)
  · exact member_octet c rfl (by decide)

end Members

/-! ### What is stored of a number -/

theorem width_cases : ∀ p ∈ parameters, p.width ≤ 2 ∨ p.width = 4 ∧ 'd' ∉ p.fmt.toList := by decide

theorem range_width : ∀ p ∈ parameters, 0 ≤ p.range.1 ∧ p.range.2 < 256 ^ p.width := by decide

theorem member_end : ∀ p ∈ parameters, p.off + p.width * p.count ≤ 103 := by decide

theorem words_eq (ovf : Overflow) (ps : List Param) (p : Parameter) :
    words ovf ps p = (conversions ps p).map fun r => r.1.value ovf r.2 := by
  cases hs : supplied p.name ps with
  | none => simp [words, conversions, hs]
  | some v =>
    cases v with
    | none => simp [words, conversions, hs]
    | some value => simp [words, conversions, hs, sscanf_eq]

theorem length_numbers (ovf : Overflow) (ps : List Param) (p : Parameter) :
    (numbers ps p).length = (words ovf ps p).length := by
  rw [words_eq, numbers, List.length_map, List.length_map]

/-- A number in the range of a parameter is converted to itself, and fits in the member. -/
theorem toNat_conversion (ovf : Overflow) {ps : List Param} {p : Parameter} (hp : p ∈ parameters)
    {r : Conv × ℤ} (hr : r ∈ conversions ps p) (hin : p.InRange r.2) :
    ((r.1.value ovf r.2).toNat : ℤ) = r.2 ∧ r.2 < 256 ^ p.width := by
  obtain ⟨hlow, hhigh⟩ := range_width p hp
  have h0 : 0 ≤ r.2 := hlow.trans hin.1
  have hlt : r.2 < 256 ^ p.width := lt_of_le_of_lt hin.2 hhigh
  refine ⟨toNat_value ovf h0 ?_, hlt⟩
  rcases width_cases p hp with hw | ⟨hw, hfmt⟩
  · left
    have : (256 : ℤ) ^ p.width ≤ 256 ^ 2 := pow_le_pow_right₀ (by decide) hw
    omega
  · right
    rw [hw] at hlt
    refine ⟨?_, by omega⟩
    unfold conversions at hr
    split at hr
    · exact conv_scanned hfmt _ r hr
    · cases hr

section Accepted

variable {ovf : Overflow} {ps : List Param} {g : SysConfig}
  (hdone : (configLoop ovf ps parameters ⟨g, []⟩).1 = .done)
include hdone

/-- A member of a value that converts holds the low bytes of its word. -/
theorem member_converted {p : Parameter} (hp : p ∈ parameters) {vals : List UInt32}
    (hpar : parsed ovf ps p = some vals) {i : ℕ} (hi : i < p.count) :
    member (withHeader (configLoop ovf ps parameters ⟨g, []⟩).2.nCfg) p i =
      (vals.getD i 0).toNat % 256 ^ p.width := by
  rw [← ofBytes_byte]
  unfold member
  congr 1
  refine List.map_congr_left fun j hj => ?_
  have hj' : j < p.width := List.mem_range.mp hj
  have hend := member_end p hp
  have hoff := two_le_off p hp
  have hmul : p.width * (i + 1) ≤ p.width * p.count := Nat.mul_le_mul_left _ hi
  rw [Nat.mul_add, Nat.mul_one] at hmul
  have hlt : p.off + p.width * i + j < 103 := by omega
  rw [byteAt_eq _ hlt, withHeader, if_neg (by dsimp only; omega)]
  exact converted_byte hdone hp hpar hi hj' rfl

/-- Numbers in the range are stored as they are, if the value converts. -/
theorem member_eq_number {p : Parameter} (hp : p ∈ parameters) (hlen : (numbers ps p).length = p.count)
    {i : ℕ} {v : ℤ} (hv : (numbers ps p)[i]? = some v) (hin : p.InRange v) :
    (member (withHeader (configLoop ovf ps parameters ⟨g, []⟩).2.nCfg) p i : ℤ) = v := by
  obtain ⟨hi, -⟩ := List.getElem?_eq_some_iff.mp hv
  rw [hlen] at hi
  obtain ⟨r, hr, rfl⟩ : ∃ r, (conversions ps p)[i]? = some r ∧ r.2 = v := by
    simpa [numbers] using hv
  obtain ⟨hval, hlt⟩ := toNat_conversion ovf hp (List.mem_of_getElem? hr) hin
  have hwords : (words ovf ps p)[i]? = some (r.1.value ovf r.2) := by
    rw [words_eq, List.getElem?_map, hr]
    rfl
  have hpar : parsed ovf ps p = some (words ovf ps p) := if_pos (by rw [← length_numbers, hlen])
  rw [member_converted hdone hp hpar hi, List.getD_eq_getElem?_getD, hwords, Option.getD_some]
  have hnat : (r.1.value ovf r.2).toNat < 256 ^ p.width := by
    zify
    rw [hval]
    exact hlt
  rw [Nat.mod_eq_of_lt hnat, hval]

/-- A gateway that does not convert has the first three octets of the local IP. -/
theorem member_gate (hm : Malforms ovf ps gate) {i : ℕ} (hi : i < 3) :
    member (withHeader (configLoop ovf ps parameters ⟨g, []⟩).2.nCfg) gate i =
      member (withHeader (configLoop ovf ps parameters ⟨g, []⟩).2.nCfg) localIp i := by
  obtain ⟨h₁, h₂, h₃, -⟩ := malformed_gate hdone hm
  have hgate : gate.off + i < 103 := by
    show 10 + i < 103
    omega
  have hlocal : localIp.off + i < 103 := by
    show 2 + i < 103
    omega
  rw [member_octet _ rfl hgate, member_octet _ rfl hlocal]
  apply congrArg UInt8.toNat
  interval_cases i
  · exact h₁
  · exact h₂
  · exact h₃

/-- Its numbers are stored exactly if the local IP, which is, starts with them. -/
theorem gate_stored_iff (hm : Malforms ovf ps gate)
    (hlen : (numbers ps gate).length ≤ 3) (hfour : (numbers ps localIp).length = 4)
    (hlocal : ∀ i v, (numbers ps localIp)[i]? = some v →
      (member (withHeader (configLoop ovf ps parameters ⟨g, []⟩).2.nCfg) localIp i : ℤ) = v) :
    (∀ i v, (numbers ps gate)[i]? = some v →
      (member (withHeader (configLoop ovf ps parameters ⟨g, []⟩).2.nCfg) gate i : ℤ) = v) ↔
      numbers ps gate <+: numbers ps localIp := by
  rw [List.prefix_iff_getElem?]
  constructor
  · intro hstored i hi
    have hi₄ : i < (numbers ps localIp).length := by omega
    have hg := hstored i _ (List.getElem?_eq_getElem hi)
    have hl := hlocal i _ (List.getElem?_eq_getElem hi₄)
    rw [List.getElem?_eq_getElem hi₄, ← hl, ← hg, member_gate hdone hm (by omega)]
  · intro hpre i v hv
    obtain ⟨hi, hget⟩ := List.getElem?_eq_some_iff.mp hv
    rw [member_gate hdone hm (by omega)]
    apply hlocal
    rw [hpre i hi, hget]

end Accepted

/-! ### Faithful or refused -/

/-- A request that has led from `w` to `w'` is accepted and has its numbers, all
in their ranges, stored; or none of them is out of range, or it is refused and
changes nothing. -/
structure Faithful (ps : List Param) (out : Outcomes) (w w' : Web) : Prop where
  stored : w'.statusIndex = 9 → ∀ p ∈ parameters, ∀ i v, (numbers ps p)[i]? = some v →
    p.InRange v ∧ (member (getConfig w'.store) p i : ℤ) = v
  flash : w'.statusIndex = 9 → Completed out w.store.flash w'.store.flash →
    record w'.store.flash.mem = getConfig w'.store
  refused : (∃ p ∈ parameters, ∃ v ∈ numbers ps p, ¬ p.InRange v) →
    1 ≤ w'.statusIndex ∧ w'.statusIndex ≤ 8 ∧ w'.store = w.store

/-- The handler returns, unless a value is a null pointer, and what it has done is faithful. -/
def FaithfulOrRefused (ovf : Overflow) (ps : List Param) (out : Outcomes) (nCfg : SysConfig) (w : Web) : Prop :=
  ((∀ p ∈ parameters, supplied p.name ps ≠ some none) →
    ∃ r, configHandler ovf ps out nCfg w = .ok (some r)) ∧
  ∀ page w', configHandler ovf ps out nCfg w = .ok (some (page, w')) → Faithful ps out w w'

/-- All numbers are in their ranges; the gateway converts, or its numbers are
those the local IP starts with. -/
structure AllInRange (ps : List Param) : Prop where
  range : ∀ p ∈ parameters, ∀ v ∈ numbers ps p, p.InRange v
  gate : (numbers ps gate).length = 4 ∨ numbers ps gate <+: numbers ps localIp

section Request

variable {ovf : Overflow} {ps : List Param}

theorem configHandler_returns (hnull : ∀ p ∈ parameters, supplied p.name ps ≠ some none) (out : Outcomes)
    (nCfg : SysConfig) (w : Web) : ∃ r, configHandler ovf ps out nCfg w = .ok (some r) := by
  by_cases href : Refused ovf ps
  · cases hend : (configLoop ovf ps parameters ⟨nCfg, []⟩).1 with
    | done => exact absurd hend ((refused_iff nCfg).mp href)
    | null => exact absurd hend (configLoop_ne_null parameters _ hnull)
    | reject s => exact ⟨_, configHandler_reject nCfg w hend out⟩
  · obtain ⟨f, hok, -⟩ := configHandler_accepted href out nCfg w
    exact ⟨_, hok⟩

/-- The value of a parameter of an accepted request converts, or is the gateway's. -/
theorem numbers_cases (hall : ∀ p ∈ parameters, supplied p.name ps ≠ none) (h : ¬ Refused ovf ps)
    {p : Parameter} (hp : p ∈ parameters) :
    (numbers ps p).length = p.count ∨ p = gate ∧ Malforms ovf ps gate ∧ (numbers ps gate).length ≤ 3 := by
  obtain ⟨value, hv⟩ : ∃ value, supplied p.name ps = some (some value) := by
    cases hs : supplied p.name ps with
    | none => exact absurd hs (hall p hp)
    | some v =>
      cases v with
      | none => exact absurd ⟨p, hp, .inl hs⟩ h
      | some value => exact ⟨value, rfl⟩
  have hiff : Malforms ovf ps p ↔ _ := malforms_iff hv
  rw [← length_numbers] at hiff
  by_cases hm : Malforms ovf ps p
  · right
    rcases gate_bytes p hp with rfl | ⟨hg, -⟩
    · refine ⟨rfl, hm, ?_⟩
      have hle : (numbers ps gate).length ≤ 4 := by
        simp only [numbers, conversions, hv, List.length_map]
        exact length_scanned_le _ value
      have hne : (numbers ps gate).length ≠ 4 := hiff.mp hm
      omega
    · exact absurd ⟨p, hp, .inr ⟨hm, hg⟩⟩ h
  · left
    by_contra hne
    exact hm (hiff.mpr hne)

/-- **Web values are stored faithfully or refused exactly when** a value other
than the gateway's does not convert, or all numbers are in their ranges and the
gateway converts, or supplies no other numbers than the local IP does. -/
theorem faithfulOrRefused_iff (ovf : Overflow) {ps : List Param}
    (hall : ∀ p ∈ parameters, supplied p.name ps ≠ none) (out : Outcomes) (nCfg : SysConfig) (w : Web) :
    FaithfulOrRefused ovf ps out nCfg w ↔ Refused ovf ps ∨ AllInRange ps := by
  by_cases href : Refused ovf ps
  · refine iff_of_true ⟨fun hnull => configHandler_returns hnull out nCfg w, fun page w' hok => ?_⟩ (.inl href)
    have h9 := statusIndex_of_refused href hok
    exact ⟨fun h => absurd h h9, fun h => absurd h h9, fun _ => refused_unchanged href hok⟩
  · obtain ⟨f, hok, hstore⟩ := configHandler_accepted href out nCfg w
    have hdone := not_not.mp (mt (refused_iff nCfg).mpr href)
    have hgate : gate ∈ parameters := by decide
    have hlocal : localIp ∈ parameters := by decide
    have hfour : (numbers ps localIp).length = 4 :=
      (numbers_cases hall href hlocal).resolve_right fun h => absurd h.1 (by decide)
    rw [or_iff_right href]
    constructor
    · rintro ⟨-, h⟩
      have hstored := (h _ _ hok).stored rfl
      refine ⟨fun p hp v hv => ?_, ?_⟩
      · obtain ⟨i, hi⟩ := List.getElem?_of_mem hv
        exact (hstored p hp i v hi).1
      · rcases numbers_cases hall href hgate with hlen | ⟨-, hm, hlen⟩
        · exact .inl hlen
        · exact .inr ((gate_stored_iff hdone hm hlen hfour fun i v hv => (hstored localIp hlocal i v hv).2).mp
            fun i v hv => (hstored gate hgate i v hv).2)
    · intro hr
      have hin : ∀ p ∈ parameters, ∀ {i v}, (numbers ps p)[i]? = some v → p.InRange v :=
        fun p hp _ _ hv => hr.range p hp _ (List.mem_of_getElem? hv)
      refine ⟨fun _ => ⟨_, hok⟩, fun page w' hok' => ?_⟩
      rw [hok] at hok'
      cases hok'
      refine ⟨fun _ p hp i v hv => ⟨hin p hp hv, ?_⟩, fun _ hcomp => record_of_completed hstore hcomp, ?_⟩
      · rcases numbers_cases hall href hp with hlen | ⟨rfl, hm, hlen⟩
        · exact member_eq_number hdone hp hlen hv (hin p hp hv)
        · have hpre := hr.gate.resolve_left (by omega)
          exact (gate_stored_iff hdone hm hlen hfour fun i v hv =>
            member_eq_number hdone hlocal hfour hv (hin localIp hlocal hv)).mpr hpre i v hv
      · rintro ⟨p, hp, v, hv, hnot⟩
        exact absurd (hr.range p hp v hv) hnot

end Request

/-! ### Two requests -/

/-- The value of a parameter in a request with the local IP `ip`. -/
def valueOf (ip : String) (p : Parameter) : List Char :=
  (if p = localIp then ip else if p.count = 4 then "10.0.0.1" else "1").toList

/-- A request with all parameters. -/
def request (ip : String) : List Param := parameters.map fun p => ⟨p.name.toList, some (valueOf ip p)⟩

theorem supplied_request (ip : String) {p : Parameter} (hp : p ∈ parameters) :
    supplied p.name (request ip) = some (some (valueOf ip p)) := by
  have hnames : ((request ip).map Param.name).Nodup := by
    rw [request, List.map_map]
    exact names_nodup
  exact supplied_of_mem hnames (List.mem_map.mpr ⟨p, hp, rfl⟩)

theorem request_given (ip : String) : ∀ p ∈ parameters, supplied p.name (request ip) ≠ none := by
  intro p hp
  rw [supplied_request ip hp]
  simp

theorem numbers_request (ip : String) {p : Parameter} (hp : p ∈ parameters) :
    numbers (request ip) p = (scanned p.fmt.toList (valueOf ip p)).map Prod.snd := by
  simp only [numbers, conversions, supplied_request ip hp]

/-- A request with numbers in their ranges. -/
theorem faithfulOrRefused_request :
    FaithfulOrRefused (fun _ _ => 0) (request "192.168.0.7") allComplete (fun _ => 0) defaultWeb := by
  have hrange : ∀ p ∈ parameters, ∀ v ∈ (scanned p.fmt.toList (valueOf "192.168.0.7" p)).map Prod.snd,
      p.InRange v := by decide +kernel
  refine (faithfulOrRefused_iff _ (request_given "192.168.0.7") _ _ _).mpr (.inr ⟨fun p hp v hv => ?_, .inl ?_⟩)
  · rw [numbers_request _ hp] at hv
    exact hrange p hp v hv
  · rw [numbers_request _ (by decide)]
    decide +kernel

/-- The local IP 300.0.0.1 is accepted and stored as 44.0.0.1. -/
theorem not_faithfulOrRefused : (∀ p ∈ parameters, supplied p.name (request "300.0.0.1") ≠ none) ∧ ∃ w',
    configHandler (fun _ _ => 0) (request "300.0.0.1") allComplete (fun _ => 0) defaultWeb =
      .ok (some (configShtml, w')) ∧
    w'.statusIndex = 9 ∧ w'.store.sCfg.ipAddr 0 = 44 ∧ w'.store.sCfg.ipAddr 1 = 0 ∧
    ¬ FaithfulOrRefused (fun _ _ => 0) (request "300.0.0.1") allComplete (fun _ => 0) defaultWeb := by
  have hlen : ∀ p ∈ parameters, (scanned p.fmt.toList (valueOf "300.0.0.1" p)).length = p.count := by
    decide +kernel
  have hlocal : localIp ∈ parameters := by decide
  have href : ¬ Refused (fun _ _ => 0) (request "300.0.0.1") := by
    rintro ⟨p, hp, hnull | ⟨⟨value, hv, hne⟩, -⟩⟩
    · rw [supplied_request _ hp] at hnull
      cases hnull
    · rw [supplied_request _ hp] at hv
      cases hv
      rw [sscanf_eq, List.length_map] at hne
      exact hne (hlen p hp)
  obtain ⟨f, hok, -⟩ := configHandler_accepted href allComplete (fun _ => 0) defaultWeb
  have hdone := not_not.mp (mt (refused_iff fun _ => 0).mpr href)
  have hpar : parsed (fun _ _ => 0) (request "300.0.0.1") localIp = some [300, 0, 0, 1] := by
    have hwords : words (fun _ _ => 0) (request "300.0.0.1") localIp = [300, 0, 0, 1] := by
      rw [words, supplied_request _ hlocal]
      decide +kernel
    rw [parsed, hwords]
    rfl
  have h₀ := member_converted hdone hlocal hpar (by decide : 0 < localIp.count)
  have h₁ := member_converted hdone hlocal hpar (by decide : 1 < localIp.count)
  have hfields := (member_fields (withHeader (configLoop (fun _ _ => 0) (request "300.0.0.1") parameters
    ⟨fun _ => 0, []⟩).2.nCfg)).1
  refine ⟨request_given _, _, hok, rfl, UInt8.toNat_inj.mp ((hfields 0).symm.trans h₀),
    UInt8.toNat_inj.mp ((hfields 1).symm.trans h₁), fun h => ?_⟩
  have hnum : (numbers (request "300.0.0.1") localIp)[0]? = some 300 := by
    rw [numbers_request _ hlocal]
    decide +kernel
  have hin := ((h.2 _ _ hok).stored rfl localIp hlocal 0 300 hnum).1
  exact absurd hin (by decide)

end CgiSsi
end Serial2Ethernet
