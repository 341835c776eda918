/-
# What is sent of a page

What TCP has taken, followed by what is scanned and not sent yet, is the page
as far as it is scanned, shown with the inserts: that holds before and after
every call of `http_send_data`, whatever TCP takes and wherever it stops
(`Scanning`). So what has been sent is always a beginning of the page as shown,
nothing of it twice and nothing left out.

The text of a tag is the handler's answer at the time the tag is found.
-/
import Serial2Ethernet.Http.SendData

namespace Serial2Ethernet
namespace Httpd

open Lib.Scanner Fs Ssi

/-! ### The state of the scanner -/

/-- The variables of the scanner stand for a state of it. -/
inductive Rep : TagCheckState → (tagIndex : ℕ) → (tagName : ℕ → UInt8) → Scan → Prop
  | none {i : ℕ} {n : ℕ → UInt8} : Rep .none i n .idle
  | leadIn {i : ℕ} {n : ℕ → UInt8} : i < lenTagLeadIn → Rep .leadIn i n (.leadIn i)
  | leadInEnd {n : ℕ → UInt8} : Rep .leadIn lenTagLeadIn n (.found [])
  | found {name : List UInt8} {n : ℕ → UInt8} : name.length ≤ lwipHttpdMaxTagNameLen →
      (∀ i (h : i < name.length), n i = name[i]) → Rep .found name.length n (.found name)
  | leadOut {name : List UInt8} {n : ℕ → UInt8} {k : ℕ} :
      cString (lwipHttpdMaxTagNameLen + 1) n = name.takeWhile (· ≠ 0) → Rep .leadOut k n (.leadOut name k)
  | sending {i : ℕ} {n : ℕ → UInt8} : Rep .sending i n .idle

/-- The name is in the array, with an end behind it. -/
theorem cString_name {name : List UInt8} {n : ℕ → UInt8} {size : ℕ} (hlen : name.length < size)
    (h : ∀ i (h : i < name.length), n i = name[i]) :
    cString size (Function.update n name.length 0) = name.takeWhile (· ≠ 0) := by
  obtain ⟨k, hk⟩ := Nat.exists_eq_add_of_lt hlen
  have hmap : (List.range size).map (Function.update n name.length 0) =
      name ++ 0 :: (List.range k).map fun j => Function.update n name.length 0 (name.length + 1 + j) := by
    refine List.ext_getElem? fun i => ?_
    rw [List.getElem?_map]
    rcases Nat.lt_trichotomy i name.length with hi | rfl | hi
    · rw [List.getElem?_range (by omega), List.getElem?_append_left hi, List.getElem?_eq_getElem hi]
      simp [Function.update_of_ne hi.ne, h i hi]
    · rw [List.getElem?_range hlen, List.getElem?_append_right (le_refl _), Nat.sub_self]
      simp
    · obtain ⟨j, rfl⟩ := Nat.exists_eq_add_of_le (Nat.succ_le_of_lt hi)
      rw [List.getElem?_append_right (by omega), show name.length.succ + j - name.length = j + 1 by omega,
        List.getElem?_cons_succ, List.getElem?_map]
      by_cases hj : j < k
      · rw [List.getElem?_range (by omega), List.getElem?_range hj]
        rfl
      · rw [List.getElem?_eq_none (by rw [List.length_range]; omega),
          List.getElem?_eq_none (by rw [List.length_range]; omega)]
        rfl
  unfold cString
  rw [hmap]
  by_cases hz : (0 : UInt8) ∈ name
  · rw [List.takeWhile_append]
    rw [if_neg]
    intro hall
    have h0 := (List.takeWhile_prefix (l := name) (· ≠ 0)).eq_of_length hall
    have := List.mem_takeWhile_imp (h0.symm ▸ hz)
    simp at this
  · have hall : ∀ c ∈ name, decide (c ≠ 0) = true := fun c hc => decide_eq_true fun h0 => hz (h0 ▸ hc)
    rw [List.takeWhile_append_of_pos hall, List.takeWhile_cons_of_neg (by simp), List.append_nil,
      List.takeWhile_eq_self_iff.mpr hall]

section Steps

variable {hs : HttpState} {b : UInt8} {st : Scan}

/-- The byte was scanned, no tag ended with it, and no insert is to be sent. -/
def Passes (hs' : HttpState) (st : Scan) (b : UInt8) : Prop :=
  ∃ st', scan st b = (st', none) ∧ hs'.tagState ≠ .sending ∧ Rep hs'.tagState hs'.tagIndex hs'.tagName st'

theorem Passes.intro {hs' : HttpState} {st st' : Scan} {t : TagCheckState} {i : ℕ} {n : ℕ → UInt8}
    (hscan : scan st b = (st', none)) (ht : hs'.tagState = t) (hi : hs'.tagIndex = i) (hn : hs'.tagName = n)
    (hne : t ≠ .sending) (hrep : Rep t i n st') : Passes hs' st b := by
  subst ht hi hn
  exact ⟨st', hscan, hne, hrep⟩

theorem tagNone_passes (hstate : hs.tagState = .none) (h : Rep .none hs.tagIndex hs.tagName st) :
    Passes (tagNone hs b) st b := by
  cases h
  unfold tagNone
  by_cases hb : gPcTagLeadIn[0]? = some b
  · rw [if_pos hb]
    exact .intro (i := 1) (by rw [scan, if_pos hb]) rfl rfl rfl TagCheckState.noConfusion (.leadIn (by decide))
  · rw [if_neg hb]
    exact .intro (by rw [scan, if_neg hb]) hstate rfl rfl TagCheckState.noConfusion .none

theorem tagLeadIn_passes (hstate : hs.tagState = .leadIn) (hend : hs.tagIndex ≠ lenTagLeadIn)
    (h : Rep .leadIn hs.tagIndex hs.tagName st) : Passes (tagLeadIn hs b) st b := by
  generalize hi : hs.tagIndex = i at h hend
  generalize hn : hs.tagName = n at h
  cases h with
  | leadInEnd => exact absurd rfl hend
  | leadIn hlt =>
    unfold tagLeadIn
    rw [hi]
    by_cases hb : gPcTagLeadIn[i]? = some b
    · rw [if_pos hb]
      by_cases hlast : i + 1 = lenTagLeadIn
      · exact .intro (by rw [scan, if_pos hb, if_pos hlast]) hstate hlast rfl TagCheckState.noConfusion .leadInEnd
      · exact .intro (i := i + 1) (by rw [scan, if_pos hb, if_neg hlast]) hstate rfl rfl
          TagCheckState.noConfusion (.leadIn (by omega))
    · rw [if_neg hb]
      exact .intro (by rw [scan, if_neg hb]) rfl rfl rfl TagCheckState.noConfusion .none

theorem tagFound_passes (hstate : hs.tagState = .found) (h : Rep .found hs.tagIndex hs.tagName st) :
    Passes (tagFound hs b) st b := by
  generalize hi : hs.tagIndex = i at h
  generalize hn : hs.tagName = n at h
  cases h with
  | @found name _ hlen hname =>
    have hnil : name.length = 0 ↔ name = [] := List.length_eq_zero_iff
    unfold tagFound
    rw [hi]
    by_cases hskip : name = [] ∧ Blank b
    · rw [if_pos ⟨hnil.mpr hskip.1, hskip.2⟩]
      exact .intro (by rw [scan, if_pos hskip]) hstate hi hn TagCheckState.noConfusion (.found hlen hname)
    · rw [if_neg fun hc => hskip ⟨hnil.mp hc.1, hc.2⟩]
      by_cases hend : gPcTagLeadOut[0]? = some b ∨ Blank b
      · rw [if_pos hend]
        by_cases hne : name = []
        · rw [if_pos (hnil.mpr hne)]
          exact .intro (by rw [scan, if_neg hskip, if_pos hend, if_pos hne]) rfl rfl rfl TagCheckState.noConfusion .none
        · rw [if_neg (mt hnil.mp hne)]
          have hstr := cString_name (Nat.lt_succ_of_le hlen) hname
          refine .intro (i := if gPcTagLeadOut[0]? = some b then 1 else 0)
            (by rw [scan, if_neg hskip, if_pos hend, if_neg hne]) rfl rfl ?_ TagCheckState.noConfusion (.leadOut hstr)
          rw [← hn]
          rfl
      · rw [if_neg hend]
        by_cases hlt : name.length < lwipHttpdMaxTagNameLen
        · rw [if_pos hlt]
          have hlen' : (name ++ [b]).length = name.length + 1 := by rw [List.length_append, List.length_singleton]
          have hname' : ∀ i (h : i < (name ++ [b]).length),
              Function.update n name.length b i = (name ++ [b])[i] := by
            intro i h
            rcases Nat.lt_succ_iff_lt_or_eq.mp (hlen' ▸ h) with hi | rfl
            · rw [Function.update_of_ne hi.ne, List.getElem_append_left hi, hname i hi]
            · rw [Function.update_self, List.getElem_concat_length rfl]
          refine .intro (by rw [scan, if_neg hskip, if_neg hend, if_pos hlt]) hstate hlen'.symm ?_
            TagCheckState.noConfusion
            (.found (by omega) hname')
          rw [← hn]
          rfl
        · rw [if_neg hlt]
          exact .intro (by rw [scan, if_neg hskip, if_neg hend, if_neg hlt]) rfl rfl rfl TagCheckState.noConfusion .none

end Steps

/-! ### The invariant -/

/-- What is scanned and not sent. -/
def HttpState.pending (hs : HttpState) : List UInt8 :=
  (hs.block.take hs.parsed).drop hs.file ++ if hs.tagState = .sending then hs.tagInsert.drop hs.tagIndex else []

/-- What no step of `http_send_data` on an open file changes. -/
def HttpState.frame (hs : HttpState) :
    Option (Fin lwipMaxOpenFiles) × List UInt8 × List (List UInt8) × Option ℕ × UInt8 × Bool :=
  (hs.handle, hs.block, hs.req, hs.buf, hs.retries, hs.tagCheck)

/-- How far the block is sent and scanned. -/
def HttpState.pos (hs : HttpState) : ℕ × ℕ × ℕ × ℕ := (hs.file, hs.left, hs.parsed, hs.parseLeft)

section Invariant

variable {P : Type} (E : Env P) (J : P → Prop) (skip : ℕ)

/-- The texts that may be inserted for a name. -/
def Answers (name text : List UInt8) : Prop := ∃ w, J w ∧ text = getTagInsert E w (name.takeWhile (· ≠ 0))

/-- The bytes are shown as `out`, and their end as `text`: the insert of a tag that ends with them. -/
def Marked (as out text : List UInt8) : Prop :=
  ∃ pre b out' st, as = pre ++ [b] ∧ Woven scan (Answers E J) skip .idle pre out' st ∧
    out = out' ++ shown skip pre b ++ text

/-- The connection has `written` so far of a page, and the first `skip` bytes of it are not to be sent. -/
structure Scanning (hs : HttpState) (written : List UInt8) : Prop where
  parsed_left : hs.parsed + hs.parseLeft = hs.block.length
  file_left : hs.file + hs.left = hs.block.length
  skip_le : skip ≤ hs.file
  ahead : hs.file ≤ max skip hs.parsed
  sending : hs.tagState = .sending →
    hs.tagEnd = hs.parsed ∧ hs.tagIndex ≤ hs.tagInsert.length ∧ (hs.parseLeft = 0 → hs.tagIndex = 0)
  woven : ∃ out st, Woven scan (Answers E J) skip .idle (hs.block.take hs.parsed) out st ∧
    Rep hs.tagState hs.tagIndex hs.tagName st ∧ out = written ++ hs.pending ∧
    (hs.tagState = .sending ∨ hs.parseLeft = 0 ∧ 0 < hs.parsed → Marked E J skip (hs.block.take hs.parsed) out
      (if hs.tagState = .sending then hs.tagInsert else []))

/-- The same in the middle of a call, of a connection that had written `before`. -/
structure Good (hs₀ : HttpState) (before : List UInt8) (s : Sender P) : Prop where
  scanning : Scanning E J skip s.hs (before ++ s.io.sent)
  world : J s.io.world
  frame : s.hs.frame = hs₀.frame

end Invariant

section Call

variable {P : Type} {E : Env P} {J : P → Prop} {skip : ℕ} {hs₀ : HttpState} {before : List UInt8} {s : Sender P}

/-- One more byte is scanned: it is to be sent, unless it is one of the first. -/
theorem drop_take_succ {block : List UInt8} {parsed file : ℕ} {b : UInt8} (hb : block[parsed]? = some b)
    (hskip : skip ≤ file) (hahead : file ≤ max skip parsed) :
    (block.take (parsed + 1)).drop file = (block.take parsed).drop file ++ shown skip (block.take parsed) b := by
  have hlt : parsed < block.length := (List.getElem?_eq_some_iff.mp hb).1
  have hlen : (block.take parsed).length = parsed := by rw [List.length_take]; omega
  have hsucc : block.take (parsed + 1) = block.take parsed ++ [b] := by rw [List.take_add_one, hb]; rfl
  unfold shown
  rw [hlen]
  by_cases hin : parsed < skip
  · rw [if_pos hin, List.append_nil, List.drop_eq_nil_of_le (by rw [hsucc, List.length_append, hlen]; simp; omega),
      List.drop_eq_nil_of_le (by omega)]
  · rw [if_neg hin, hsucc, List.drop_append_of_le_length (by omega)]

theorem Good.char (h : Good E J skip hs₀ before s) (hleft : s.hs.parseLeft ≠ 0) :
    ∃ b, s.hs.block[s.hs.parsed]? = some b ∧ s.hs.char = .ok b := by
  have hlt : s.hs.parsed < s.hs.block.length := by
    have := h.scanning.parsed_left
    omega
  have hb : s.hs.block[s.hs.parsed]? = some s.hs.block[s.hs.parsed] := List.getElem?_eq_getElem hlt
  exact ⟨_, hb, by rw [HttpState.char, hb]⟩

/-- A byte is scanned at which no tag ends. -/
theorem Good.pass {b : UInt8} {hs' : HttpState} (h : Good E J skip hs₀ before s)
    (hstate : s.hs.tagState ≠ .sending) (hleft : s.hs.parseLeft ≠ 0) (hb : s.hs.block[s.hs.parsed]? = some b)
    (hframe : hs'.frame = s.hs.frame) (hpos : hs'.pos = s.hs.next.pos)
    (hpass : ∀ st, Rep s.hs.tagState s.hs.tagIndex s.hs.tagName st → Passes hs' st b) :
    Good E J skip hs₀ before { s with hs := hs' } := by
  obtain ⟨hsum, hfile, hskip, hahead, -, out, st, hw, hrep, hout, -⟩ := h.scanning
  obtain ⟨st', hscan, hne, hrep'⟩ := hpass st hrep
  have hblock : hs'.block = s.hs.block := congrArg (fun f => f.2.1) hframe
  obtain ⟨hf, hl, hp, hpl⟩ : hs'.file = s.hs.file ∧ hs'.left = s.hs.left ∧ hs'.parsed = s.hs.parsed + 1 ∧
      hs'.parseLeft = s.hs.parseLeft - 1 := by
    simpa [HttpState.pos, HttpState.next] using hpos
  refine ⟨⟨?_, ?_, ?_, ?_, fun hs => absurd hs hne, ?_⟩, h.world, hframe.trans h.frame⟩
  · rw [hp, hpl, hblock]
    omega
  · rw [hf, hl, hblock]
    exact hfile
  · rw [hf]
    exact hskip
  · show hs'.file ≤ max skip hs'.parsed
    omega
  · have hstep := Woven.plain (a := b) hw (by rw [hscan])
    rw [hscan] at hstep
    have htake : hs'.block.take hs'.parsed = s.hs.block.take s.hs.parsed ++ [b] := by
      rw [hblock, hp, List.take_add_one, hb]
      rfl
    refine ⟨_, st', htake ▸ hstep, hrep', ?_, fun _ => ⟨_, b, out, st, htake, hw, by rw [if_neg hne, List.append_nil]⟩⟩
    rw [hout]
    unfold HttpState.pending
    rw [if_neg hstate, if_neg hne, List.append_nil, List.append_nil, hblock, hp, hf,
      drop_take_succ hb hskip hahead, List.append_assoc]

/-- A byte is scanned at which a tag ends: its insert is to be sent behind it. -/
theorem Good.mark {b : UInt8} (h : Good E J skip hs₀ before s)
    (hleft : s.hs.parseLeft ≠ 0) (hb : s.hs.block[s.hs.parsed]? = some b) (hstate : s.hs.tagState = .leadOut)
    (hrep : ∀ st, Rep s.hs.tagState s.hs.tagIndex s.hs.tagName st → ∃ name, scan st b = (.idle, some name) ∧
      cString (lwipHttpdMaxTagNameLen + 1) s.hs.tagName = name.takeWhile (· ≠ 0)) :
    Good E J skip hs₀ before { s with
      hs := s.hs.next.insert (getTagInsert E s.io.world (cString (lwipHttpdMaxTagNameLen + 1) s.hs.tagName)) } := by
  obtain ⟨hsum, hfile, hskip, hahead, -, out, st, hw, hst, hout, -⟩ := h.scanning
  obtain ⟨name, hscan, hname⟩ := hrep st hst
  have hans : Answers E J name (getTagInsert E s.io.world (cString (lwipHttpdMaxTagNameLen + 1) s.hs.tagName)) :=
    ⟨s.io.world, h.world, by rw [hname]⟩
  have hstep := Woven.mark (a := b) hw (by rw [hscan]) hans
  rw [hscan] at hstep
  have htake : s.hs.block.take (s.hs.parsed + 1) = s.hs.block.take s.hs.parsed ++ [b] := by
    rw [List.take_add_one, hb]
    rfl
  refine ⟨⟨?_, hfile, hskip, ?_, fun _ => ⟨rfl, Nat.zero_le _, fun _ => rfl⟩, ?_⟩, h.world, h.frame⟩
  · show s.hs.parsed + 1 + (s.hs.parseLeft - 1) = s.hs.block.length
    omega
  · show s.hs.file ≤ max skip (s.hs.parsed + 1)
    omega
  · refine ⟨_, .idle, htake ▸ hstep, .sending, ?_, fun _ => ⟨_, b, out, st, htake, hw, rfl⟩⟩
    have hne : s.hs.tagState ≠ .sending := by rw [hstate]; exact nofun
    have hpend : s.hs.pending = (s.hs.block.take s.hs.parsed).drop s.hs.file := by
      rw [HttpState.pending, if_neg hne, List.append_nil]
    rw [hout, hpend]
    show _ = _ ++ ((s.hs.block.take (s.hs.parsed + 1)).drop s.hs.file ++ _)
    rw [drop_take_succ hb hskip hahead]
    simp only [List.append_assoc]
    rfl

/-- A write that failed. -/
theorem Good.failed {s' : Sender P} (h : Good E J skip hs₀ before s) (hf : Failed J s s') :
    Good E J skip hs₀ before s' := by
  obtain ⟨err, n, w, rfl, -, hw⟩ := hf
  exact ⟨h.scanning, hw, h.frame⟩

/-- A write of what is scanned. -/
theorem Good.sendFile (hE : E.Keeps J) (h : Good E J skip hs₀ before s) {len : ℕ}
    (hlen : s.hs.file + len ≤ s.hs.parsed) :
    ∃ s', Httpd.sendFile E s len = .ok s' ∧ Good E J skip hs₀ before s' := by
  have hle : s.hs.parsed ≤ s.hs.block.length := by
    have := h.scanning.parsed_left
    omega
  obtain ⟨s', hs', hcases⟩ := send_cases hE s s.hs.tagCheck s.hs.sentFile h.world
    (hlen.trans hle)
  refine ⟨s', hs', ?_⟩
  rcases hcases with ⟨n, w, rfl, hn, -, hw⟩ | hfail
  · obtain ⟨hsum, hfile, hskip, hahead, hsend, out, st, hwov, hrep, hout, hmark⟩ := h.scanning
    refine ⟨⟨hsum, ?_, ?_, ?_, hsend, out, st, hwov, hrep, ?_, hmark⟩, hw, h.frame⟩
    · show s.hs.file + n + (s.hs.left - n) = s.hs.block.length
      omega
    · show skip ≤ s.hs.file + n
      omega
    · show s.hs.file + n ≤ max skip s.hs.parsed
      omega
    · have hdrop : (s.hs.block.take s.hs.parsed).drop s.hs.file =
          (s.hs.block.drop s.hs.file).take n ++ (s.hs.block.take s.hs.parsed).drop (s.hs.file + n) := by
        rw [← List.drop_drop, List.drop_take]
        conv_lhs => rw [← List.take_append_drop n ((s.hs.block.drop s.hs.file).take (s.hs.parsed - s.hs.file))]
        rw [List.take_take, Nat.min_eq_left (by omega)]
      rw [hout]
      show before ++ s.io.sent ++ ((s.hs.block.take s.hs.parsed).drop s.hs.file ++ _) =
        before ++ (s.io.sent ++ _) ++ ((s.hs.block.take s.hs.parsed).drop (s.hs.file + n) ++ _)
      rw [hdrop]
      simp only [List.append_assoc]
      rfl
  · exact h.failed hfail

/-- A write of the insert, once all in front of it is sent. -/
theorem Good.sendInsert (hE : E.Keeps J) (h : Good E J skip hs₀ before s) (hstate : s.hs.tagState = .sending)
    (hleft : s.hs.parseLeft ≠ 0) (hsent : s.hs.parsed ≤ s.hs.file) {len : ℕ}
    (hlen : s.hs.tagIndex + len ≤ s.hs.tagInsert.length) :
    ∃ s', Httpd.sendInsert E s len = .ok s' ∧ Good E J skip hs₀ before s' := by
  obtain ⟨s', hs', hcases⟩ := send_cases hE s true s.hs.sentInsert h.world hlen
  refine ⟨s', hs', ?_⟩
  rcases hcases with ⟨n, w, rfl, hn, -, hw⟩ | hfail
  · obtain ⟨hsum, hfile, hskip, hahead, hsend, out, st, hwov, hrep, hout, hmark⟩ := h.scanning
    obtain ⟨hend, hidx, -⟩ := hsend hstate
    refine ⟨⟨hsum, hfile, hskip, hahead, fun _ => ⟨hend, ?_, fun h0 => absurd h0 hleft⟩, out, st, hwov, ?_, ?_, hmark⟩,
      hw, h.frame⟩
    · show s.hs.tagIndex + n ≤ s.hs.tagInsert.length
      omega
    · show Rep s.hs.tagState (s.hs.tagIndex + n) s.hs.tagName st
      rw [hstate] at hrep ⊢
      cases hrep
      exact .sending
    · have hnil : (s.hs.block.take s.hs.parsed).drop s.hs.file = [] :=
        List.drop_eq_nil_of_le ((List.length_take_le _ _).trans hsent)
      rw [hout]
      show before ++ s.io.sent ++ ((s.hs.block.take s.hs.parsed).drop s.hs.file ++
          if s.hs.tagState = .sending then s.hs.tagInsert.drop s.hs.tagIndex else _) =
        before ++ (s.io.sent ++ _) ++ ((s.hs.block.take s.hs.parsed).drop s.hs.file ++
          if s.hs.tagState = .sending then s.hs.tagInsert.drop (s.hs.tagIndex + n) else _)
      rw [hnil, if_pos hstate, if_pos hstate, ← List.drop_drop]
      simp only [List.append_assoc, List.nil_append, List.take_append_drop]
  · exact h.failed hfail

/-! ### The rounds of the loop -/

theorem tagNone_frame (hs : HttpState) (b : UInt8) :
    (tagNone hs b).frame = hs.frame ∧ (tagNone hs b).pos = hs.next.pos := by
  unfold tagNone
  split <;> exact ⟨rfl, rfl⟩

theorem tagLeadIn_frame (hs : HttpState) (b : UInt8) :
    (tagLeadIn hs b).frame = hs.frame ∧ (tagLeadIn hs b).pos = hs.next.pos := by
  unfold tagLeadIn
  split <;> exact ⟨rfl, rfl⟩

theorem tagFound_frame (hs : HttpState) (b : UInt8) :
    (tagFound hs b).frame = hs.frame ∧ (tagFound hs b).pos = hs.next.pos := by
  unfold tagFound
  repeat' split
  all_goals exact ⟨rfl, rfl⟩

/-- A round that reads a byte at which no tag ends. -/
theorem Good.read {f : UInt8 → HttpState} (h : Good E J skip hs₀ before s) (hstate : s.hs.tagState ≠ .sending)
    (hleft : s.hs.parseLeft ≠ 0) (hf : ∀ b, (f b).frame = s.hs.frame ∧ (f b).pos = s.hs.next.pos)
    (hpass : ∀ b st, Rep s.hs.tagState s.hs.tagIndex s.hs.tagName st → Passes (f b) st b) :
    ∃ s', (s.hs.char.map fun b => { s with hs := f b }) = .ok s' ∧ Good E J skip hs₀ before s' := by
  obtain ⟨b, hb, hchar⟩ := h.char hleft
  rw [hchar]
  exact ⟨_, rfl, h.pass hstate hleft hb (hf b).1 (hf b).2 (hpass b)⟩

theorem tagLeadOut_good (hE : E.Keeps J) (h : Good E J skip hs₀ before s) (hstate : s.hs.tagState = .leadOut)
    (hleft : s.hs.parseLeft ≠ 0) {b : UInt8} (hb : s.hs.block[s.hs.parsed]? = some b) :
    ∃ s', tagLeadOut E s b = .ok s' ∧ Good E J skip hs₀ before s' := by
  have hne : s.hs.tagState ≠ .sending := by rw [hstate]; simp
  have hout : ∀ {st}, Rep s.hs.tagState s.hs.tagIndex s.hs.tagName st → ∃ name, st = .leadOut name s.hs.tagIndex ∧
      cString (lwipHttpdMaxTagNameLen + 1) s.hs.tagName = name.takeWhile (· ≠ 0) := by
    intro st hrep
    rw [hstate] at hrep
    generalize s.hs.tagIndex = i at hrep ⊢
    cases hrep with
    | leadOut hname => exact ⟨_, rfl, hname⟩
  unfold tagLeadOut
  by_cases hskip : s.hs.tagIndex = 0 ∧ Blank b
  · rw [if_pos hskip]
    refine ⟨_, rfl, h.pass hne hleft hb rfl rfl fun st hrep => ?_⟩
    obtain ⟨name, rfl, hname⟩ := hout hrep
    exact .intro (i := s.hs.tagIndex) (by rw [scan, if_pos hskip]) hstate rfl rfl TagCheckState.noConfusion
      (.leadOut hname)
  · rw [if_neg hskip]
    by_cases hmatch : gPcTagLeadOut[s.hs.tagIndex]? = some b
    · rw [if_pos hmatch]
      by_cases hlast : s.hs.tagIndex = lenTagLeadOut - 1
      · rw [if_pos hlast]
        have hmark := h.mark hleft hb hstate fun st hrep => by
          obtain ⟨name, rfl, hname⟩ := hout hrep
          exact ⟨name, by rw [scan, if_neg hskip, if_pos hmatch, if_pos hlast], hname⟩
        dsimp only
        split
        · next hfile =>
          refine hmark.sendFile hE ?_
          have hend : (s.hs.next.insert (getTagInsert E s.io.world
              (cString (lwipHttpdMaxTagNameLen + 1) s.hs.tagName))).tagEnd = s.hs.parsed + 1 := rfl
          rw [hend] at hfile ⊢
          show s.hs.file + (if s.hs.parsed + 1 - s.hs.file < s.len then s.hs.parsed + 1 - s.hs.file else s.len) ≤
            s.hs.parsed + 1
          change s.hs.file < s.hs.parsed + 1 at hfile
          split <;> omega
        · exact ⟨_, rfl, hmark⟩
      · rw [if_neg hlast]
        refine ⟨_, rfl, h.pass hne hleft hb rfl rfl fun st hrep => ?_⟩
        obtain ⟨name, rfl, hname⟩ := hout hrep
        exact .intro (i := s.hs.tagIndex + 1) (by rw [scan, if_neg hskip, if_pos hmatch, if_neg hlast]) hstate rfl rfl
          TagCheckState.noConfusion (.leadOut hname)
    · rw [if_neg hmatch]
      refine ⟨_, rfl, h.pass hne hleft hb rfl rfl fun st hrep => ?_⟩
      obtain ⟨name, rfl, hname⟩ := hout hrep
      exact .intro (by rw [scan, if_neg hskip, if_neg hmatch]) rfl rfl rfl TagCheckState.noConfusion .none

theorem tagSending_good (hE : E.Keeps J) (h : Good E J skip hs₀ before s) (hstate : s.hs.tagState = .sending)
    (hleft : s.hs.parseLeft ≠ 0) :
    ∃ s', tagSending E s = .ok s' ∧ Good E J skip hs₀ before s' := by
  obtain ⟨hend, hidx, -⟩ := h.scanning.sending hstate
  unfold tagSending
  rw [hend]
  by_cases hfile : s.hs.file < s.hs.parsed
  · rw [if_pos hfile]
    dsimp only
    by_cases hlen : (if s.hs.parsed - s.hs.file < s.len then s.hs.parsed - s.hs.file else s.len) ≠ 0
    · rw [if_pos hlen]
      exact h.sendFile hE (by split <;> omega)
    · rw [if_neg hlen]
      exact ⟨_, rfl, h.scanning, h.world, h.frame⟩
  · rw [if_neg hfile]
    by_cases hmore : s.hs.tagIndex < s.hs.tagInsert.length
    · rw [if_pos hmore]
      exact h.sendInsert hE hstate hleft (Nat.le_of_not_lt hfile) (by split <;> omega)
    · rw [if_neg hmore]
      obtain ⟨hsum, hfl, hskip, hahead, -, out, st, hwov, hrep, hout, -⟩ := h.scanning
      refine ⟨_, rfl, ⟨hsum, hfl, hskip, hahead, nofun, out, st, hwov, ?_, ?_, fun hend =>
        absurd (hend.resolve_left nofun).1 hleft⟩, h.world, h.frame⟩
      · rw [hstate] at hrep
        cases hrep
        exact .none
      · rw [hout, HttpState.pending, if_pos hstate, List.drop_eq_nil_of_le (Nat.le_of_not_lt hmore)]
        rfl

/-- **A round keeps the invariant**, and reads and sends within the page. -/
theorem tagStep_good (hE : E.Keeps J) (h : Good E J skip hs₀ before s) (hleft : s.hs.parseLeft ≠ 0) :
    ∃ s', tagStep E s = .ok s' ∧ Good E J skip hs₀ before s' := by
  unfold tagStep
  have hne : ∀ {t}, s.hs.tagState = t → t ≠ .sending → s.hs.tagState ≠ .sending := fun he hn hs => hn (he ▸ hs)
  cases hstate : s.hs.tagState with
  | none => exact h.read (hne hstate nofun) hleft (tagNone_frame s.hs) fun b st hr => tagNone_passes hstate (hstate ▸ hr)
  | leadIn =>
    dsimp only
    by_cases hend : s.hs.tagIndex = lenTagLeadIn
    · rw [if_pos hend]
      obtain ⟨hsum, hfl, hskip, hahead, -, out, st, hwov, hrep, hout, -⟩ := h.scanning
      refine ⟨_, rfl, ⟨hsum, hfl, hskip, hahead, nofun, out, st, hwov, ?_, ?_, fun hend =>
        absurd (hend.resolve_left nofun).1 hleft⟩, h.world, h.frame⟩
      · rw [hstate, hend] at hrep
        cases hrep with
        | leadIn hlt => exact absurd hlt (Nat.lt_irrefl _)
        | leadInEnd =>
          have hfound : Rep .found ([] : List UInt8).length s.hs.tagName (.found []) :=
            .found (Nat.zero_le _) fun i hi => absurd hi (Nat.not_lt_zero i)
          exact hfound
      · rw [hout, HttpState.pending, if_neg (hne hstate nofun)]
        rfl
    · rw [if_neg hend]
      exact h.read (hne hstate nofun) hleft (tagLeadIn_frame s.hs) fun b st hr =>
        tagLeadIn_passes hstate hend (hstate ▸ hr)
  | found =>
    exact h.read (hne hstate nofun) hleft (tagFound_frame s.hs) fun b st hr => tagFound_passes hstate (hstate ▸ hr)
  | leadOut =>
    obtain ⟨b, hb, hchar⟩ := h.char hleft
    dsimp only
    rw [hchar]
    exact tagLeadOut_good hE h hstate hleft hb
  | sending => exact tagSending_good hE h hstate hleft

/-- What the rounds keep, the loop keeps; it ends at the end of the block, behind a write
that failed, or, returning, when nothing more can be sent. -/
theorem tagLoop_rule (I : Sender P → Prop)
    (hstep : ∀ s, I s → s.hs.parseLeft ≠ 0 → s.err = .ok → s.len ≠ 0 → ∃ s', tagStep E s = .ok s' ∧ I s') (s : Sender P)
    (h : I s) : ∃ r s', tagLoop E s = .ok (r, s') ∧ I s' ∧
      if r then s'.len = 0 ∧ s'.err = .ok else s'.hs.parseLeft = 0 ∨ s'.err ≠ .ok := by
  induction s using tagLoop.induct E with
  | case1 s hcond hlen =>
    rw [tagLoop, dif_pos hcond, dif_pos hlen]
    exact ⟨true, s, rfl, h, hlen, hcond.2⟩
  | case2 s hcond hlen e hs =>
    obtain ⟨s', hs', -⟩ := hstep s h hcond.1 hcond.2 hlen
    rw [hs] at hs'
    cases hs'
  | case3 s hcond hlen s₁ hs ih =>
    obtain ⟨s', hs', hI⟩ := hstep s h hcond.1 hcond.2 hlen
    rw [hs] at hs'
    obtain rfl := Except.ok.inj hs'
    rw [tagLoop, dif_pos hcond, dif_neg hlen]
    split
    · next e he => rw [hs] at he; cases he
    · next s₂ he =>
      rw [hs] at he
      obtain rfl := Except.ok.inj he
      exact ih hI
  | case4 s hcond =>
    rw [tagLoop, dif_neg hcond]
    refine ⟨false, s, rfl, h, ?_⟩
    rw [if_neg Bool.false_ne_true]
    by_cases hleft : s.hs.parseLeft = 0
    · exact .inl hleft
    · exact .inr fun herr => hcond ⟨hleft, herr⟩

/-- How much is sent at a time is no more than there is. -/
theorem window_le (w : P) (n : ℕ) : window E w n ≤ n := by
  unfold window
  dsimp only
  split <;> split <;> omega

theorem window_fits (w : P) {file parsed : ℕ} (h : file < parsed) :
    file + window E w (parsed - file) ≤ parsed := by
  have := window_le (E := E) w (parsed - file)
  omega

theorem sendLoop_good (hE : E.Keeps J) (h : Good E J skip hs₀ before s) :
    ∃ r s', sendLoop E s = .ok (r, s') ∧ Good E J skip hs₀ before s' := by
  obtain ⟨r, s₁, h₁, hg₁, -⟩ := tagLoop_rule (Good E J skip hs₀ before)
    (fun s hg hleft _ _ => tagStep_good hE hg hleft) s h
  unfold sendLoop
  rw [h₁]
  cases r with
  | true => exact ⟨true, s₁, rfl, hg₁⟩
  | false =>
    dsimp only
    unfold sendScanned
    by_cases hrest : s₁.hs.tagState ≠ .sending ∧ s₁.hs.file < s₁.hs.parsed
    · rw [if_pos hrest]
      obtain ⟨s₂, h₂, hg₂⟩ := hg₁.sendFile hE (window_fits _ hrest.2)
      rw [h₂]
      exact ⟨false, s₂, rfl, hg₂⟩
    · rw [if_neg hrest]
      exact ⟨false, s₁, rfl, hg₁⟩

theorem sendTags_good (hE : E.Keeps J) (h : Good E J skip hs₀ before s) :
    ∃ r s', sendTags E s = .ok (r, s') ∧ Good E J skip hs₀ before s' := by
  have h' : Good E J skip hs₀ before { s with len := E.tcpSndbuf s.io.world } := ⟨h.scanning, h.world, h.frame⟩
  unfold sendTags
  dsimp only
  by_cases hunsent : s.hs.file < s.hs.parsed
  · rw [if_pos hunsent]
    obtain ⟨s₁, h₁, hg₁⟩ := h'.sendFile hE (window_fits _ hunsent)
    rw [h₁]
    dsimp only
    by_cases hfull : E.tcpSndbuf s₁.io.world = 0
    · rw [if_pos hfull]
      exact ⟨true, s₁, rfl, hg₁⟩
    · rw [if_neg hfull]
      exact sendLoop_good hE hg₁
  · rw [if_neg hunsent]
    exact sendLoop_good hE h'

end Call

/-! ### A call -/

section Serve

variable {P : Type} (E : Env P) (J : P → Prop)

/-- What a file is shown as, without its first `skip` bytes: as it is, or with the inserts. -/
def Shown (tagCheck : Bool) (data : List UInt8) (skip : ℕ) (out : List UInt8) : Prop :=
  if tagCheck then ∃ st, Woven scan (Answers E J) skip .idle data out st else out = data.drop skip

/-- What is sent of a file in all: an insert behind its last byte is not. -/
def Whole (tagCheck : Bool) (data : List UInt8) (skip : ℕ) (out : List UInt8) : Prop :=
  if tagCheck then ∃ pre b out' st, data = pre ++ [b] ∧ Woven scan (Answers E J) skip .idle pre out' st ∧
    out = out' ++ shown skip pre b
  else out = data.drop skip

/-- `written` has been sent of the file with the data. -/
structure Serving (data : List UInt8) (skip : ℕ) (hs : HttpState) (written : List UInt8) : Prop where
  block : hs.block = data
  sent : if hs.tagCheck then Scanning E J skip hs written
    else hs.file + hs.left = data.length ∧ written ++ data.drop hs.file = data.drop skip

/-- A call leaves the connection serving the file, or has closed it at the end of the file. -/
def Goes (fs : FsMemory) (i : Fin lwipMaxOpenFiles) (data : List UInt8) (skip : ℕ) (hs : HttpState)
    (written : List UInt8) (d : Done P) : Prop :=
  J d.io.world ∧ ∃ hs', Serving E J data skip hs' (written ++ d.io.sent) ∧ hs'.frame = hs.frame ∧
    match d.conn with
    | .active hs₁ => hs₁ = hs' ∧ d.fs = fs
    | _ => hs'.left = 0 ∧ d.fs = fsClose fs i

variable {E J} {data written : List UInt8} {skip : ℕ} {hs : HttpState} {fs : FsMemory} {i : Fin lwipMaxOpenFiles}

theorem closeAndReturn_goes (hE : E.Keeps J) {hs' : HttpState} {io : Io P} (hJ : J io.world)
    (hserve : Serving E J data skip hs' (written ++ io.sent)) (hframe : hs'.frame = hs.frame)
    (hhandle : hs.handle = some i) (hleft : hs'.left = 0) (ret : Bool) :
    Goes E J fs i data skip hs written (closeAndReturn E hs' fs io ret) := by
  have hi : hs'.handle = some i := (congrArg Prod.fst hframe).trans hhandle
  have hw := hE.tcpClose io.world hJ
  unfold closeAndReturn httpCloseConn
  rcases hc : E.tcpClose io.world with ⟨err, w⟩
  rw [hc] at hw
  cases err <;> exact ⟨hw, hs', hserve, hframe, hleft, by simp [hi]⟩

theorem sendPlain_serves (hE : E.Keeps J) {w : P} (hJ : J w) (h : Serving E J data skip hs written)
    (hplain : hs.tagCheck = false) : ∃ s', sendPlain E ⟨⟨w, []⟩, hs, 0, .ok, false⟩ = .ok (false, s') ∧
      J s'.io.world ∧ s'.hs.frame = hs.frame ∧ Serving E J data skip s'.hs (written ++ s'.io.sent) := by
  obtain ⟨hblock, hsent⟩ := h
  rw [if_neg (by rw [hplain]; exact Bool.false_ne_true)] at hsent
  obtain ⟨hfile, hout⟩ := hsent
  have hwin : hs.file + window E w hs.left ≤ hs.block.length := by
    have := window_le (E := E) w hs.left
    rw [hblock]
    omega
  obtain ⟨s', hs', hcases⟩ := send_cases hE ⟨⟨w, []⟩, hs, 0, .ok, false⟩ hs.tagCheck hs.sentFile hJ hwin
  refine ⟨s', ?_, ?_⟩
  · unfold sendPlain sendFile
    rw [hs']
    rfl
  · rcases hcases with ⟨n, w', rfl, hn, -, hw'⟩ | ⟨err, n, w', rfl, -, hw'⟩
    · refine ⟨hw', rfl, hblock, ?_⟩
      show if hs.tagCheck then _ else hs.file + n + (hs.left - n) = data.length ∧
        written ++ ([] ++ (hs.block.drop hs.file).take n) ++ data.drop (hs.file + n) = data.drop skip
      rw [if_neg (by rw [hplain]; exact Bool.false_ne_true)]
      have := window_le (E := E) w hs.left
      refine ⟨by omega, ?_⟩
      rw [← hout, hblock, ← List.drop_drop, List.nil_append, List.append_assoc, List.take_append_drop]
    · refine ⟨hw', rfl, hblock, ?_⟩
      show if hs.tagCheck then _ else hs.file + hs.left = data.length ∧ written ++ [] ++ data.drop hs.file = _
      rw [if_neg (by rw [hplain]; exact Bool.false_ne_true), List.append_nil]
      exact ⟨hfile, hout⟩

theorem sendTags_serves (hE : E.Keeps J) {w : P} (hJ : J w) (h : Serving E J data skip hs written)
    (htags : hs.tagCheck = true) : ∃ r s', sendTags E ⟨⟨w, []⟩, hs, 0, .ok, false⟩ = .ok (r, s') ∧
      J s'.io.world ∧ s'.hs.frame = hs.frame ∧ Serving E J data skip s'.hs (written ++ s'.io.sent) := by
  obtain ⟨hblock, hsent⟩ := h
  rw [if_pos htags] at hsent
  have hstart : Good E J skip hs written ⟨⟨w, []⟩, hs, 0, .ok, false⟩ := ⟨by rwa [List.append_nil], hJ, rfl⟩
  obtain ⟨r, s', hs', hg⟩ := sendTags_good hE hstart
  have hblock' : s'.hs.block = hs.block := congrArg (fun f => f.2.1) hg.frame
  have htags' : s'.hs.tagCheck = hs.tagCheck := congrArg (fun f => f.2.2.2.2.2) hg.frame
  refine ⟨r, s', hs', hg.world, hg.frame, hblock'.trans hblock, ?_⟩
  rw [if_pos (htags'.trans htags)]
  exact hg.scanning

/-- The rest of the function, on a file that still has bytes to be sent. -/
theorem httpSendData_eq {w : P} (hhandle : hs.handle = some i) (hread : fsBytesLeft (fs i).file ≤ 0)
    (hleft : hs.left ≠ 0) {r : Bool} {s' : Sender P} (hframe : s'.hs.frame = hs.frame)
    (hcall : (if hs.tagCheck then sendTags E ⟨⟨w, []⟩, hs, 0, .ok, false⟩
      else sendPlain E ⟨⟨w, []⟩, hs, 0, .ok, false⟩) = .ok (r, s')) :
    httpSendData E hs fs w = .ok (if r = false ∧ s'.hs.left = 0 then closeAndReturn E s'.hs fs s'.io false
      else ⟨.active s'.hs, fs, s'.io, s'.dataToSend⟩) := by
  have hi : s'.hs.handle = some i := (congrArg Prod.fst hframe).trans hhandle
  unfold httpSendData refill
  rw [if_neg hleft]
  dsimp only
  rw [hcall]
  cases r with
  | true => rfl
  | false =>
    dsimp only
    by_cases hend : s'.hs.left = 0
    · rw [if_pos hend, hi, if_pos ⟨rfl, hend⟩]
      dsimp only
      rw [if_pos hread]
    · rw [if_neg hend, if_neg fun hc => hend hc.2]

/-- A file of which nothing is left. -/
theorem httpSendData_end {w : P} (hhandle : hs.handle = some i) (hread : fsBytesLeft (fs i).file ≤ 0)
    (hleft : hs.left = 0) : httpSendData E hs fs w = .ok (closeAndReturn E hs fs ⟨w, []⟩ false) := by
  unfold httpSendData refill
  rw [if_pos hleft, hhandle]
  dsimp only
  rw [if_pos hread]

/-- **A call of `http_send_data` on an open file** does not fault, sends a piece of what is shown of
the file, and closes the connection only if nothing of the file is left. -/
theorem httpSendData_goes (hE : E.Keeps J) {w : P} (hJ : J w) (h : Serving E J data skip hs written)
    (hhandle : hs.handle = some i) (hread : fsBytesLeft (fs i).file ≤ 0) :
    ∃ d, httpSendData E hs fs w = .ok d ∧ Goes E J fs i data skip hs written d := by
  by_cases hleft : hs.left = 0
  · exact ⟨_, httpSendData_end hhandle hread hleft,
      closeAndReturn_goes hE hJ (by rwa [List.append_nil]) rfl hhandle hleft false⟩
  · have hcall : ∃ r s', (if hs.tagCheck then sendTags E ⟨⟨w, []⟩, hs, 0, .ok, false⟩
        else sendPlain E ⟨⟨w, []⟩, hs, 0, .ok, false⟩) = .ok (r, s') ∧
        J s'.io.world ∧ s'.hs.frame = hs.frame ∧ Serving E J data skip s'.hs (written ++ s'.io.sent) := by
      cases htag : hs.tagCheck with
      | true =>
        rw [if_pos rfl]
        exact sendTags_serves hE hJ h htag
      | false =>
        rw [if_neg Bool.false_ne_true]
        obtain ⟨s', hs', hgoes⟩ := sendPlain_serves hE hJ h htag
        exact ⟨false, s', hs', hgoes⟩
    obtain ⟨r, s', hs', hw', hframe, hserve⟩ := hcall
    refine ⟨_, httpSendData_eq hhandle hread hleft hframe hs', ?_⟩
    by_cases hend : r = false ∧ s'.hs.left = 0
    · rw [if_pos hend]
      exact closeAndReturn_goes hE hw' hserve hframe hhandle hend.2 false
    · rw [if_neg hend]
      exact ⟨hw', s'.hs, hserve, hframe, rfl, rfl⟩

/-- What has been sent is a beginning of what is shown of a beginning of the file. -/
theorem Serving.sent_prefix (h : Serving E J data skip hs written) :
    ∃ out, written <+: out ∧ ∃ n, Shown E J hs.tagCheck (data.take n) skip out := by
  obtain ⟨rfl, hsent⟩ := h
  cases htag : hs.tagCheck with
  | true =>
    rw [if_pos htag] at hsent
    obtain ⟨-, -, -, -, -, out, st, hw, -, rfl, -⟩ := hsent
    exact ⟨_, List.prefix_append _ _, hs.parsed, by rw [Shown, if_pos rfl]; exact ⟨st, hw⟩⟩
  | false =>
    rw [if_neg (by rw [htag]; exact Bool.false_ne_true)] at hsent
    refine ⟨hs.block.drop skip, ⟨_, hsent.2⟩, hs.block.length, ?_⟩
    rw [Shown, if_neg Bool.false_ne_true, List.take_length]

/-- When nothing is left of a file, all of what is shown of it has been sent. -/
theorem Serving.complete (h : Serving E J data skip hs written) (hleft : hs.left = 0) (hskip : skip < data.length) :
    Whole E J hs.tagCheck data skip written := by
  obtain ⟨rfl, hsent⟩ := h
  unfold Whole
  cases htag : hs.tagCheck with
  | true =>
    rw [if_pos htag] at hsent
    rw [if_pos rfl]
    obtain ⟨hsum, hfile, -, hahead, hsending, out, st, hw, -, hout, hmark⟩ := hsent
    have hparsed : hs.parsed = hs.block.length := by omega
    have htake : hs.block.take hs.parsed = hs.block := by rw [hparsed, List.take_length]
    have hnil : (hs.block.take hs.parsed).drop hs.file = [] :=
      List.drop_eq_nil_of_le ((List.length_take_le _ _).trans (by omega))
    rw [htake] at hw hmark
    unfold HttpState.pending at hout
    rw [hnil, List.nil_append] at hout
    obtain ⟨pre, b, out', st', hblock, hw', he⟩ := hmark (.inr ⟨by omega, by omega⟩)
    refine ⟨pre, b, out', st', hblock, hw', ?_⟩
    by_cases hstate : hs.tagState = .sending
    · have hindex : hs.tagIndex = 0 := (hsending hstate).2.2 (by omega)
      rw [if_pos hstate, hindex, List.drop_zero] at hout
      rw [if_pos hstate, hout] at he
      exact List.append_cancel_right he
    · rw [if_neg hstate, List.append_nil] at hout
      rw [if_neg hstate, List.append_nil, hout] at he
      exact he
  | false =>
    rw [if_neg (by rw [htag]; exact Bool.false_ne_true)] at hsent
    rw [if_neg Bool.false_ne_true, ← hsent.2, List.drop_eq_nil_of_le (by omega), List.append_nil]

end Serve

/-! ### Progress -/

section Progress

variable {P : Type} {E : Env P} {w : P} {s s' : Sender P}

/-- TCP has room, and takes what fits into it. -/
structure Takes (E : Env P) (w : P) : Prop where
  room : 0 < E.tcpSndbuf w
  mss : 0 < E.tcpMss w
  takes : ∀ ptr copy, ptr.length ≤ E.tcpSndbuf w → (E.tcpWrite w ptr copy).1 = .ok

/-- All in front of the insert is sent. -/
def Settled (hs : HttpState) : Prop := hs.tagState = .sending → hs.parsed ≤ hs.file

/-- Something was sent, or nothing was tried and there is room. -/
def Begun (E : Env P) (w : P) (s : Sender P) : Prop :=
  s.io.sent ≠ [] ∨ s.io = ⟨w, []⟩ ∧ s.len = E.tcpSndbuf w ∧ s.err = .ok ∧ Settled s.hs

/-- What was sent stays sent. -/
theorem send_sent {mem : List UInt8} {ptr len : ℕ} {copy : Bool} {advance : ℕ → HttpState} (hsent : s.io.sent ≠ [])
    (h : send E s mem ptr len copy advance = .ok s') : s'.io.sent ≠ [] := by
  have hE : E.Keeps fun _ => True := ⟨fun _ _ _ _ => trivial, fun _ _ => trivial, fun _ _ _ => trivial⟩
  obtain ⟨s₁, h₁, hs₁⟩ := send_cases hE s copy advance trivial (send_bound h)
  rw [h] at h₁
  obtain rfl := Except.ok.inj h₁
  rcases hs₁ with ⟨n, w, rfl, -⟩ | ⟨err, n, w, rfl, -⟩
  · exact fun hnil => hsent (List.append_eq_nil_iff.mp hnil).1
  · exact hsent

/-- The first write of a call is one that TCP takes. -/
theorem send_first (hw : Takes E w) {mem : List UInt8} {ptr len : ℕ} {copy : Bool} {advance : ℕ → HttpState}
    (hio : s.io = ⟨w, []⟩) (hlen : 0 < len) (hle : len ≤ E.tcpSndbuf w)
    (h : send E s mem ptr len copy advance = .ok s') : s'.io.sent ≠ [] := by
  have hbound := send_bound h
  have hptr : (mem.drop ptr).take len ≠ [] := by
    intro hnil
    have := congrArg List.length hnil
    rw [List.length_take, List.length_drop, List.length_nil] at this
    omega
  have htake := hw.takes (((mem.drop ptr).take len).take len) copy (by
    rw [List.length_take]
    exact (Nat.min_le_left _ _).trans hle)
  unfold send slice at h
  rw [if_pos hbound] at h
  dsimp only at h
  rw [httpWrite, hio] at h
  rcases hcall : E.tcpWrite w (((mem.drop ptr).take len).take len) copy with ⟨err, w'⟩
  rw [hcall] at htake h
  dsimp only at htake h
  rw [htake] at h
  obtain rfl := Except.ok.inj h
  show [] ++ ((mem.drop ptr).take len).take len ≠ []
  rwa [List.nil_append, List.take_take, Nat.min_self]

/-- The lesser of what there is to send and of what may be sent. -/
theorem lesser_pos {a len : ℕ} (ha : 0 < a) (hlen : len ≠ 0) :
    0 < (if a < len then a else len) ∧ (if a < len then a else len) ≤ len := by
  split <;> omega

theorem tagNone_state {hs : HttpState} (h : hs.tagState ≠ .sending) (b : UInt8) :
    (tagNone hs b).tagState ≠ .sending := by
  unfold tagNone
  split
  · exact nofun
  · exact h

theorem tagLeadIn_state {hs : HttpState} (h : hs.tagState ≠ .sending) (b : UInt8) :
    (tagLeadIn hs b).tagState ≠ .sending := by
  unfold tagLeadIn
  split
  · exact h
  · exact nofun

theorem tagFound_state {hs : HttpState} (h : hs.tagState ≠ .sending) (b : UInt8) :
    (tagFound hs b).tagState ≠ .sending := by
  unfold tagFound
  repeat' split
  all_goals first | exact h | exact nofun

/-- The round has written nothing. -/
def Silent (s s' : Sender P) : Prop := s'.io = s.io ∧ s'.len = s.len ∧ s'.err = s.err ∧ Settled s'.hs

/-- The round has written at least one byte, if that did not fail, and no more than `len`. -/
def Writes (E : Env P) (s s' : Sender P) : Prop :=
  ∃ (s₁ : Sender P) (mem : List UInt8) (ptr len : ℕ) (copy : Bool) (advance : ℕ → HttpState),
    s₁.io = s.io ∧ send E s₁ mem ptr len copy advance = .ok s' ∧ 0 < len ∧ len ≤ s.len

theorem read_silent {f : UInt8 → HttpState} (hf : ∀ b, (f b).tagState ≠ .sending)
    (h : (s.hs.char.map fun b => { s with hs := f b }) = .ok s') : Silent s s' := by
  cases hb : s.hs.char with
  | error e => rw [hb] at h; cases h
  | ok b =>
    rw [hb] at h
    obtain rfl := Except.ok.inj h
    exact ⟨rfl, rfl, rfl, fun hs => absurd hs (hf b)⟩

theorem tagLeadOut_io (hstate : s.hs.tagState = .leadOut) (hlen : s.len ≠ 0) {b : UInt8}
    (h : tagLeadOut E s b = .ok s') : Silent s s' ∨ Writes E s s' := by
  have hsettled : ∀ {hs : HttpState}, hs.tagState = s.hs.tagState → Settled hs := by
    intro hs he hsend
    rw [he, hstate] at hsend
    cases hsend
  unfold tagLeadOut at h
  split at h
  · obtain rfl := Except.ok.inj h
    exact .inl ⟨rfl, rfl, rfl, hsettled rfl⟩
  · split at h
    · split at h
      · dsimp only at h
        split at h
        · next hfile =>
          refine .inr ⟨_, _, _, _, _, _, ?_, h, lesser_pos (Nat.sub_pos_of_lt hfile) hlen⟩
          rfl
        · next hfile =>
          obtain rfl := Except.ok.inj h
          exact .inl ⟨rfl, rfl, rfl, fun _ => Nat.le_of_not_lt hfile⟩
      · obtain rfl := Except.ok.inj h
        exact .inl ⟨rfl, rfl, rfl, hsettled rfl⟩
    · obtain rfl := Except.ok.inj h
      exact .inl ⟨rfl, rfl, rfl, nofun⟩

theorem tagSending_io (hlen : s.len ≠ 0) (h : tagSending E s = .ok s') : Silent s s' ∨ Writes E s s' := by
  unfold tagSending at h
  split at h
  · next hfile =>
    have hpos := lesser_pos (Nat.sub_pos_of_lt hfile) hlen
    dsimp only at h
    rw [if_pos hpos.1.ne'] at h
    exact .inr ⟨_, _, _, _, _, _, rfl, h, hpos⟩
  · split at h
    · next hindex => exact .inr ⟨_, _, _, _, _, _, rfl, h, lesser_pos (Nat.sub_pos_of_lt hindex) hlen⟩
    · obtain rfl := Except.ok.inj h
      exact .inl ⟨rfl, rfl, rfl, nofun⟩

theorem tagStep_io (hlen : s.len ≠ 0) (h : tagStep E s = .ok s') : Silent s s' ∨ Writes E s s' := by
  have hne : ∀ {t}, s.hs.tagState = t → t ≠ .sending → s.hs.tagState ≠ .sending := fun he hn hs => hn (he ▸ hs)
  unfold tagStep at h
  split at h
  · next hstate => exact .inl (read_silent (tagNone_state (hne hstate nofun)) h)
  · next hstate =>
    split at h
    · obtain rfl := Except.ok.inj h
      exact .inl ⟨rfl, rfl, rfl, nofun⟩
    · exact .inl (read_silent (tagLeadIn_state (hne hstate nofun)) h)
  · next hstate => exact .inl (read_silent (tagFound_state (hne hstate nofun)) h)
  · next hstate =>
    cases hb : s.hs.char with
    | error e => rw [hb] at h; cases h
    | ok b =>
      rw [hb] at h
      exact tagLeadOut_io hstate hlen h
  · exact tagSending_io hlen h

theorem tagStep_begun (hw : Takes E w) (hb : Begun E w s) (hlen : s.len ≠ 0) (h : tagStep E s = .ok s') :
    Begun E w s' := by
  rcases tagStep_io hlen h with ⟨hio, hl, he, hsettled⟩ | ⟨s₁, mem, ptr, len, copy, advance, hio, hsend, hpos, hle⟩
  · unfold Begun
    rw [hio, hl, he]
    exact hb.imp_right fun ⟨h₁, h₂, h₃, _⟩ => ⟨h₁, h₂, h₃, hsettled⟩
  · rcases hb with hsent | ⟨hworld, hl, -⟩
    · exact .inl (send_sent (by rwa [hio]) hsend)
    · exact .inl (send_first hw (hio.trans hworld) hpos (by omega) hsend)

/-- What is sent at a time is at least one byte, if there is one. -/
theorem window_pos (hw : Takes E w) {n : ℕ} (hn : 0 < n) : 0 < window E w n ∧ window E w n ≤ E.tcpSndbuf w := by
  obtain ⟨hroom, hmss, -⟩ := hw
  unfold window
  dsimp only
  split <;> split <;> omega

section Loop

variable {J : P → Prop} {skip : ℕ} {hs₀ : HttpState} {before : List UInt8} (hE : E.Keeps J) (hw : Takes E w)
include hE hw

theorem sendLoop_progress (h : Good E J skip hs₀ before s) (hb : Begun E w s) :
    ∃ r s', sendLoop E s = .ok (r, s') ∧ (s'.io.sent ≠ [] ∨ r = false ∧ s'.hs.left = 0) := by
  obtain ⟨r, s₁, h₁, ⟨hg₁, hb₁⟩, hend⟩ := tagLoop_rule (fun s => Good E J skip hs₀ before s ∧ Begun E w s)
    (fun s hI hleft _ hlen => by
      obtain ⟨s', hs', hg'⟩ := tagStep_good hE hI.1 hleft
      exact ⟨s', hs', hg', tagStep_begun hw hI.2 hlen hs'⟩) s ⟨h, hb⟩
  unfold sendLoop
  rw [h₁]
  cases r with
  | true =>
    rw [if_pos rfl] at hend
    refine ⟨true, s₁, rfl, .inl ?_⟩
    rcases hb₁ with hsent | ⟨-, hl, -⟩
    · exact hsent
    · have := hw.room
      omega
  | false =>
    rw [if_neg Bool.false_ne_true] at hend
    dsimp only
    unfold sendScanned
    by_cases hrest : s₁.hs.tagState ≠ .sending ∧ s₁.hs.file < s₁.hs.parsed
    · rw [if_pos hrest]
      obtain ⟨s₂, h₂, -⟩ := hg₁.sendFile hE (window_fits _ hrest.2)
      have hpos := window_pos hw (Nat.sub_pos_of_lt hrest.2)
      rw [h₂]
      refine ⟨false, s₂, rfl, .inl ?_⟩
      rcases hb₁ with hsent | ⟨hio, -⟩
      · exact send_sent hsent h₂
      · rw [hio] at h₂
        exact send_first hw hio hpos.1 hpos.2 h₂
    · rw [if_neg hrest]
      refine ⟨false, s₁, rfl, hb₁.imp_right fun ⟨_, _, herr, hsettled⟩ => ⟨rfl, ?_⟩⟩
      have hle : s₁.hs.parsed ≤ s₁.hs.file := by
        by_cases hstate : s₁.hs.tagState = .sending
        · exact hsettled hstate
        · exact Nat.le_of_not_lt fun hlt => hrest ⟨hstate, hlt⟩
      have hparsed := hend.resolve_right fun hne => hne herr
      have := hg₁.scanning.parsed_left
      have := hg₁.scanning.file_left
      omega

theorem sendTags_progress {hs : HttpState} (h : Good E J skip hs₀ before ⟨⟨w, []⟩, hs, 0, .ok, false⟩) :
    ∃ r s', sendTags E ⟨⟨w, []⟩, hs, 0, .ok, false⟩ = .ok (r, s') ∧
      (s'.io.sent ≠ [] ∨ r = false ∧ s'.hs.left = 0) := by
  have h' : Good E J skip hs₀ before ⟨⟨w, []⟩, hs, E.tcpSndbuf w, .ok, false⟩ := ⟨h.scanning, h.world, h.frame⟩
  unfold sendTags
  dsimp only
  by_cases hunsent : hs.file < hs.parsed
  · rw [if_pos hunsent]
    obtain ⟨s₁, h₁, hg₁⟩ := h'.sendFile hE (window_fits (E := E) w hunsent)
    have hpos := window_pos hw (Nat.sub_pos_of_lt hunsent)
    have hsent := send_first hw rfl hpos.1 hpos.2 h₁
    rw [h₁]
    dsimp only
    by_cases hfull : E.tcpSndbuf s₁.io.world = 0
    · rw [if_pos hfull]
      exact ⟨true, s₁, rfl, .inl hsent⟩
    · rw [if_neg hfull]
      exact sendLoop_progress hE hw hg₁ (.inl hsent)
  · rw [if_neg hunsent]
    exact sendLoop_progress hE hw h' (.inr ⟨rfl, rfl, rfl, fun _ => Nat.le_of_not_lt hunsent⟩)

theorem sendPlain_progress {hs : HttpState} (hfile : hs.file + hs.left = hs.block.length) (hleft : hs.left ≠ 0)
    (hJ : J w) : ∃ s', sendPlain E ⟨⟨w, []⟩, hs, 0, .ok, false⟩ = .ok (false, s') ∧ s'.io.sent ≠ [] ∧
      s'.hs.frame = hs.frame := by
  have hwin : hs.file + window E w hs.left ≤ hs.block.length := by
    have := window_le (E := E) w hs.left
    omega
  have hpos := window_pos hw (Nat.pos_of_ne_zero hleft)
  obtain ⟨s', hs', hcases⟩ := send_cases hE ⟨⟨w, []⟩, hs, 0, .ok, false⟩ hs.tagCheck hs.sentFile hJ hwin
  refine ⟨s', ?_, send_first hw rfl hpos.1 hpos.2 hs', ?_⟩
  · unfold sendPlain sendFile
    rw [hs']
    rfl
  · rcases hcases with ⟨n, w', rfl, -⟩ | ⟨err, n, w', rfl, -⟩ <;> rfl

omit hE hw in
theorem closeAndReturn_conn (hs hs' : HttpState) (fs : FsMemory) (io : Io P) (ret : Bool) :
    (closeAndReturn E hs fs io ret).conn ≠ .active hs' := by
  unfold closeAndReturn httpCloseConn
  rcases E.tcpClose io.world with ⟨err, w⟩
  cases err <;> exact nofun

/-- **A call for which TCP has room** sends at least one byte, or closes the connection. -/
theorem httpSendData_progress {data written : List UInt8} {hs hs' : HttpState} {fs : FsMemory}
    {i : Fin lwipMaxOpenFiles} {d : Done P} (hJ : J w) (h : Serving E J data skip hs written)
    (hhandle : hs.handle = some i) (hread : fsBytesLeft (fs i).file ≤ 0) (hd : httpSendData E hs fs w = .ok d)
    (hactive : d.conn = .active hs') : d.io.sent ≠ [] := by
  by_cases hleft : hs.left = 0
  · rw [httpSendData_end hhandle hread hleft] at hd
    obtain rfl := Except.ok.inj hd
    exact absurd hactive (closeAndReturn_conn _ _ _ _ _)
  · obtain ⟨hblock, hsent⟩ := h
    have hcall : ∃ r s', (if hs.tagCheck then sendTags E ⟨⟨w, []⟩, hs, 0, .ok, false⟩
        else sendPlain E ⟨⟨w, []⟩, hs, 0, .ok, false⟩) = .ok (r, s') ∧ s'.hs.frame = hs.frame ∧
        (s'.io.sent ≠ [] ∨ r = false ∧ s'.hs.left = 0) := by
      cases htag : hs.tagCheck with
      | true =>
        rw [if_pos htag] at hsent
        rw [if_pos rfl]
        have hg : Good E J skip hs written ⟨⟨w, []⟩, hs, 0, .ok, false⟩ := ⟨by rwa [List.append_nil], hJ, rfl⟩
        obtain ⟨r, s', hs', hg'⟩ := sendTags_good hE hg
        obtain ⟨r₁, s₁, hs₁, hprog⟩ := sendTags_progress hE hw hg
        rw [hs'] at hs₁
        obtain ⟨rfl, rfl⟩ := Prod.mk.inj (Except.ok.inj hs₁)
        exact ⟨r, s', hs', hg'.frame, hprog⟩
      | false =>
        rw [if_neg (by rw [htag]; exact Bool.false_ne_true)] at hsent
        rw [if_neg Bool.false_ne_true]
        obtain ⟨s', hs', hne, hframe⟩ := sendPlain_progress hE hw (hblock ▸ hsent.1) hleft hJ
        exact ⟨false, s', hs', hframe, .inl hne⟩
    obtain ⟨r, s', hs', hframe, hprog⟩ := hcall
    rw [httpSendData_eq hhandle hread hleft hframe hs'] at hd
    obtain rfl := Except.ok.inj hd
    by_cases hend : r = false ∧ s'.hs.left = 0
    · rw [if_pos hend] at hactive
      exact absurd hactive (closeAndReturn_conn _ _ _ _ _)
    · rw [if_neg hend]
      exact hprog.resolve_right hend

end Loop

end Progress

end Httpd
end Serial2Ethernet
