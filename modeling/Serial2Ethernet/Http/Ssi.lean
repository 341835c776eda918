/-
# Tags in a page

A page with the extension of an SSI file may contain tags, such as
`<!--#lip-->`. This module says what a page with tags is shown as, without the
sender: `scan` reads a page byte by byte and finds the tags, and a page that is
made of plain texts and tags is shown as the texts and the tags, each tag with
its insert behind it (`shows_page`). The texts may change while the page is
being sent: `ShownAs` is what it may be shown as then, and `EndsAs` what there
is of it without the text of a tag at its very end.

The scanner does not look back. A `<` that comes where another byte of the
lead-in is expected is passed over, so `<<!--#lip-->` has no tag in it.
-/
import Serial2Ethernet.Lib.Scanner
import Serial2Ethernet.Http.Fs

namespace Serial2Ethernet
namespace Ssi

open Lib.Scanner

/-- `"<!--#"` -/
def gPcTagLeadIn : List UInt8 := [0x3C, 0x21, 0x2D, 0x2D, 0x23]

/-- `"-->"` -/
def gPcTagLeadOut : List UInt8 := [0x2D, 0x2D, 0x3E]

example : gPcTagLeadIn = Fs.text "<!--#" ∧ gPcTagLeadOut = Fs.text "-->" := by decide +kernel

def lenTagLeadIn : ℕ := 5

def lenTagLeadOut : ℕ := 3

def lwipHttpdMaxTagNameLen : ℕ := 6

/-- A blank, a tab, or the end of a line. -/
def Blank (b : UInt8) : Prop := b = 0x20 ∨ b = 0x09 ∨ b = 0x0A ∨ b = 0x0D

instance (b : UInt8) : Decidable (Blank b) := by unfold Blank; infer_instance

/-- Where the scanner is: outside of tags, `k` bytes into a lead-in, in the name, or
behind the name with `k` bytes of the lead-out. -/
inductive Scan
  | idle
  | leadIn (k : ℕ)
  | found (name : List UInt8)
  | leadOut (name : List UInt8) (k : ℕ)
  deriving DecidableEq, Repr

/-- One byte. The last byte of a lead-out is where a tag ends. -/
def scan : Scan → UInt8 → Scan × Option (List UInt8)
  | .idle, b => (if gPcTagLeadIn[0]? = some b then .leadIn 1 else .idle, none)
  | .leadIn k, b =>
    if gPcTagLeadIn[k]? = some b then (if k + 1 = lenTagLeadIn then .found [] else .leadIn (k + 1), none)
    else (.idle, none)
  | .found name, b =>
    if name = [] ∧ Blank b then (.found name, none)
    else if gPcTagLeadOut[0]? = some b ∨ Blank b then
      if name = [] then (.idle, none)
      else (.leadOut name (if gPcTagLeadOut[0]? = some b then 1 else 0), none)
    else if name.length < lwipHttpdMaxTagNameLen then (.found (name ++ [b]), none)
    else (.idle, none)
  | .leadOut name k, b =>
    if k = 0 ∧ Blank b then (.leadOut name k, none)
    else if gPcTagLeadOut[k]? = some b then
      if k = lenTagLeadOut - 1 then (.idle, some name) else (.leadOut name (k + 1), none)
    else (.idle, none)

/-! ### Pages -/

/-- A text that the scanner passes over: there is no lead-in in it, nor the
beginning of one at its end. -/
structure PlainText where
  bytes : List UInt8
  no_leadIn : ¬ gPcTagLeadIn <:+: bytes
  no_start : ∀ k, 1 ≤ k → k < lenTagLeadIn → ¬ gPcTagLeadIn.take k <:+ bytes

/-- A tag: a name, perhaps with blanks around it. -/
structure Tag where
  before : List UInt8
  name : List UInt8
  behind : List UInt8
  before_blank : ∀ b ∈ before, Blank b
  name_ne : name ≠ []
  name_len : name.length ≤ lwipHttpdMaxTagNameLen
  name_char : ∀ b ∈ name, ¬ Blank b ∧ gPcTagLeadOut[0]? ≠ some b
  behind_blank : ∀ b ∈ behind, Blank b

def Tag.bytes (t : Tag) : List UInt8 := gPcTagLeadIn ++ (t.before ++ (t.name ++ (t.behind ++ gPcTagLeadOut)))

inductive Part
  | text (t : PlainText)
  | tag (t : Tag)

def Part.bytes : Part → List UInt8
  | .text t => t.bytes
  | .tag t => t.bytes

/-- A tag is shown with its insert behind it. -/
def Part.shown (ins : List UInt8 → List UInt8) : Part → List UInt8
  | .text t => t.bytes
  | .tag t => t.bytes ++ ins t.name

/-- The name of a tag. -/
def Part.name : Part → List (List UInt8)
  | .text _ => []
  | .tag t => [t.name]

/-! ### Texts -/

/-- What the scanner may be in behind a text without a lead-in. -/
inductive Outside : Scan → List UInt8 → Prop
  | idle (bytes : List UInt8) : Outside .idle bytes
  | leadIn {k : ℕ} {bytes : List UInt8} : 1 ≤ k → k < lenTagLeadIn → gPcTagLeadIn.take k <:+ bytes →
      Outside (.leadIn k) bytes

theorem leadIn_take_succ {k : ℕ} {b : UInt8} (h : gPcTagLeadIn[k]? = some b) :
    gPcTagLeadIn.take (k + 1) = gPcTagLeadIn.take k ++ [b] := by
  rw [List.take_add_one, h]
  rfl

theorem take_suffix_concat {k : ℕ} {bytes : List UInt8} {b : UInt8} (h : gPcTagLeadIn[k]? = some b)
    (hs : gPcTagLeadIn.take k <:+ bytes) : gPcTagLeadIn.take (k + 1) <:+ bytes ++ [b] := by
  obtain ⟨pre, rfl⟩ := hs
  rw [leadIn_take_succ h, List.append_assoc]
  exact List.suffix_append pre _

theorem outside_text (bytes : List UInt8) (h : ¬ gPcTagLeadIn <:+: bytes) :
    Outside (after scan .idle bytes) bytes ∧ marks scan .idle bytes = [] := by
  induction bytes using List.reverseRecOn with
  | nil => exact ⟨.idle [], rfl⟩
  | append_singleton bytes b ih =>
    obtain ⟨hout, hmarks⟩ := ih fun hin => h (hin.trans (List.prefix_append bytes [b]).isInfix)
    rw [after_concat, marks_concat, hmarks]
    generalize hs : after scan .idle bytes = s at hout ⊢
    cases hout with
    | idle =>
      by_cases hb : gPcTagLeadIn[0]? = some b
      · rw [scan, if_pos hb]
        exact ⟨.leadIn (le_refl 1) (by decide) (take_suffix_concat hb List.nil_suffix), rfl⟩
      · rw [scan, if_neg hb]
        exact ⟨.idle _, rfl⟩
    | @leadIn k _ hk hlt hsuf =>
      by_cases hb : gPcTagLeadIn[k]? = some b
      · have hsuf' := take_suffix_concat hb hsuf
        by_cases hlast : k + 1 = lenTagLeadIn
        · rw [hlast] at hsuf'
          exact absurd hsuf'.isInfix h
        · rw [scan, if_pos hb, if_neg hlast]
          exact ⟨.leadIn (by omega) (by omega) hsuf', rfl⟩
      · rw [scan, if_neg hb]
        exact ⟨.idle _, rfl⟩

theorem shows_text (ins : List UInt8 → List UInt8) (t : PlainText) :
    Shows scan ins .idle t.bytes t.bytes [] .idle := by
  obtain ⟨hout, hmarks⟩ := outside_text t.bytes t.no_leadIn
  refine .of_marks_nil ?_ hmarks
  generalize after scan .idle t.bytes = s at hout
  cases hout with
  | idle => rfl
  | leadIn hk hlt hsuf => exact absurd hsuf (t.no_start _ hk hlt)

/-! ### Tags -/

section Tags

variable (ins : List UInt8 → List UInt8)

theorem shows_leadIn : Shows scan ins .idle gPcTagLeadIn gPcTagLeadIn [] (.found []) :=
  .of_marks_nil (by decide) (by decide)

theorem shows_before {bs : List UInt8} (h : ∀ b ∈ bs, Blank b) : Shows scan ins (.found []) bs bs [] (.found []) :=
  .stay fun b hb => by rw [scan, if_pos ⟨rfl, h b hb⟩]

theorem shows_name : ∀ (bs name : List UInt8), (∀ b ∈ bs, ¬ Blank b ∧ gPcTagLeadOut[0]? ≠ some b) →
    (name ++ bs).length ≤ lwipHttpdMaxTagNameLen → Shows scan ins (.found name) bs bs [] (.found (name ++ bs))
  | [], name, _, _ => by rw [List.append_nil]; exact .nil _
  | b :: bs, name, h, hlen => by
    obtain ⟨hblank, hout⟩ := h b List.mem_cons_self
    have hlt : name.length < lwipHttpdMaxTagNameLen := by
      rw [List.length_append, List.length_cons] at hlen
      omega
    have hb : scan (.found name) b = (.found (name ++ [b]), none) := by
      rw [scan, if_neg fun hc => hblank hc.2, if_neg fun hc => hc.elim hout hblank, if_pos hlt]
    rw [List.append_cons] at hlen ⊢
    exact (Shows.step hb).append (shows_name bs (name ++ [b]) (fun b' hb' => h b' (List.mem_cons_of_mem _ hb')) hlen)

theorem shows_behind (name : List UInt8) {bs : List UInt8} (h : ∀ b ∈ bs, Blank b) :
    Shows scan ins (.leadOut name 0) bs bs [] (.leadOut name 0) :=
  .stay fun b hb => by rw [scan, if_pos ⟨rfl, h b hb⟩]

/-- Behind the name the lead-out may come at once, or after blanks. The insert comes behind its last byte. -/
theorem shows_end {name bs : List UInt8} (hne : name ≠ []) (h : ∀ b ∈ bs, Blank b) :
    Shows scan ins (.found name) (bs ++ gPcTagLeadOut) (bs ++ (gPcTagLeadOut ++ ins name)) [name] .idle := by
  cases bs with
  | nil => constructor <;> simp [gPcTagLeadOut, lenTagLeadOut, after, marks, weave, scan, Blank, hne]
  | cons b bs =>
    have hblank := h b List.mem_cons_self
    have hout : gPcTagLeadOut[0]? ≠ some b := by
      rcases hblank with rfl | rfl | rfl | rfl <;> decide
    have hb : scan (.found name) b = (.leadOut name 0, none) := by
      rw [scan, if_neg fun hc => hne hc.1, if_pos (.inr hblank), if_neg hne, if_neg hout]
    have hlast : Shows scan ins (.leadOut name 0) gPcTagLeadOut (gPcTagLeadOut ++ ins name) [name] .idle := by
      constructor <;> simp [gPcTagLeadOut, lenTagLeadOut, after, marks, weave, scan, Blank]
    exact (Shows.step hb).append ((shows_behind ins name fun b' hb' => h b' (List.mem_cons_of_mem _ hb')).append hlast)

/-- A tag is found at its last byte. -/
theorem shows_tag (t : Tag) : Shows scan ins .idle t.bytes (t.bytes ++ ins t.name) [t.name] .idle := by
  have hname := shows_name ins t.name [] t.name_char (by simpa using t.name_len)
  rw [List.nil_append] at hname
  have h := (shows_leadIn ins).append ((shows_before ins t.before_blank).append
    (hname.append (shows_end ins t.name_ne t.behind_blank)))
  unfold Tag.bytes
  simpa only [List.append_assoc, List.nil_append] using h

/-- **Pages.** A page of texts and tags is shown as its texts and tags, in order, with the
insert of each tag behind it, and the tags are the ones the scanner finds. -/
theorem shows_page : ∀ page : List Part, Shows scan ins .idle (page.flatMap Part.bytes)
    (page.flatMap (Part.shown ins)) (page.flatMap Part.name) .idle
  | [] => .nil Scan.idle
  | .text t :: page => (shows_text ins t).append (shows_page page)
  | .tag t :: page => (shows_tag ins t).append (shows_page page)

end Tags

/-! ### Texts that change -/

/-- A page is shown as `out`, behind each tag one of the texts it can have. -/
inductive ShownAs (Ans : List UInt8 → List UInt8 → Prop) : (page : List Part) → (out : List UInt8) → Prop
  | nil : ShownAs Ans [] []
  | text (t : PlainText) {page out} : ShownAs Ans page out → ShownAs Ans (.text t :: page) (t.bytes ++ out)
  | tag (t : Tag) {page text out} : Ans t.name text → ShownAs Ans page out →
      ShownAs Ans (.tag t :: page) (t.bytes ++ text ++ out)

/-- The same without the text of a tag that ends the page. -/
def EndsAs (Ans : List UInt8 → List UInt8 → Prop) (page : List Part) (out : List UInt8) : Prop :=
  match page.getLast? with
  | some (.tag t) => ∃ before, ShownAs Ans page.dropLast before ∧ out = before ++ t.bytes
  | _ => ShownAs Ans page out

section Changing

variable {Ans : List UInt8 → List UInt8 → Prop} {ins : List UInt8 → List UInt8} {page : List Part}
  {pre out : List UInt8} {b : UInt8} {s : Scan}

/-- If each tag can have one text only, there is one way to show the page. -/
theorem ShownAs.eq_shown (h : ShownAs Ans page out) (hans : ∀ name text, Ans name text → text = ins name) :
    out = page.flatMap (Part.shown ins) := by
  induction h with
  | nil => rfl
  | text t _ ih => rw [ih, List.flatMap_cons, Part.shown]
  | tag t hx _ ih => rw [ih, hans _ _ hx, List.flatMap_cons, Part.shown]

theorem EndsAs.eq_shown {t : PlainText} (h : EndsAs Ans page out) (hlast : page.getLast? = some (.text t))
    (hans : ∀ name text, Ans name text → text = ins name) : out = page.flatMap (Part.shown ins) := by
  rw [EndsAs, hlast] at h
  exact h.eq_shown hans

/-- What the scanner makes of a page is what it is shown as. -/
theorem woven_page : ∀ {page : List Part} {out : List UInt8} {s : Scan},
    Woven scan Ans 0 .idle (page.flatMap Part.bytes) out s → ShownAs Ans page out
  | [], out, s, h => by
    obtain rfl := h.of_marks_nil rfl
    exact .nil
  | part :: page, out, s, h => by
    rw [List.flatMap_cons] at h
    obtain ⟨out₁, out₂, s₁, rfl, h₁, h₂⟩ := h.split
    have hstate := h₁.state
    rw [Nat.zero_sub] at h₂
    cases part with
    | text t =>
      have htext := shows_text (fun _ => []) t
      obtain rfl : s₁ = .idle := hstate.trans htext.state
      obtain rfl := h₁.of_marks_nil htext.found
      exact .text t (woven_page h₂)
    | tag t =>
      have htag := shows_tag (fun _ => []) t
      obtain rfl : s₁ = .idle := hstate.trans htag.state
      obtain ⟨text, hx, rfl⟩ := h₁.of_marks_single htag.found
      rw [Part.bytes, (shows_tag (fun _ => text) t).out_eq]
      exact .tag t hx (woven_page h₂)

/-- The mark of a tag is at its last byte, and nowhere before. -/
theorem tag_last (t : Tag) (h : t.bytes = pre ++ [b]) : marks scan .idle pre = [] := by
  have hfound := (shows_tag (fun _ => []) t).found
  rw [h, marks_concat] at hfound
  cases hs : (scan (after scan .idle pre) b).2 with
  | some name =>
    rw [hs, Option.toList_some] at hfound
    exact (List.append_inj' (hfound.trans (List.nil_append _).symm) rfl).1
  | none =>
    -- a text put in further in front would not be behind the tag
    have hout := (shows_tag (fun _ => [b + 1]) t).out_eq
    rw [h, weave_concat, hs, Option.elim_none, List.append_nil] at hout
    have hb := (List.append_inj' hout rfl).2
    have hne : b ≠ b + 1 := by
      intro he
      have := congrArg UInt8.toNat he
      rw [UInt8.toNat_add, UInt8.toNat_one] at this
      omega
    exact absurd (List.cons.inj hb).1 hne

theorem part_last {init : List Part} {part : Part} (hne : part.bytes ≠ [])
    (hpage : (init ++ [part]).flatMap Part.bytes = pre ++ [b]) :
    ∃ bytes, part.bytes = bytes ++ [b] ∧ pre = init.flatMap Part.bytes ++ bytes := by
  obtain ⟨bytes, b', hb⟩ := (List.eq_nil_or_concat' part.bytes).resolve_left hne
  rw [List.flatMap_append, List.flatMap_singleton, hb, ← List.append_assoc] at hpage
  obtain ⟨rfl, hlast⟩ := List.append_inj' hpage rfl
  obtain rfl := (List.cons.inj hlast).1
  exact ⟨bytes, hb, rfl⟩

theorem tag_ne_nil (t : Tag) : t.bytes ≠ [] := List.append_ne_nil_of_left_ne_nil (List.cons_ne_nil _ _) _

/-- What is shown of a page up to its last byte, if no empty text is at its end. -/
theorem woven_last (hpage : page.flatMap Part.bytes = pre ++ [b])
    (hlast : ∀ t, page.getLast? = some (.text t) → t.bytes ≠ []) (h : Woven scan Ans 0 .idle pre out s) :
    EndsAs Ans page (out ++ [b]) := by
  rcases List.eq_nil_or_concat' page with rfl | ⟨init, part, rfl⟩
  · exact absurd hpage.symm (List.append_ne_nil_of_right_ne_nil pre (List.cons_ne_nil b []))
  have hidle : after scan .idle (init.flatMap Part.bytes) = .idle := (shows_page (fun _ => []) init).state
  rw [EndsAs, List.getLast?_concat]
  rw [List.getLast?_concat] at hlast
  cases part with
  | text t =>
    obtain ⟨bytes, hbytes, rfl⟩ := part_last (show (Part.text t).bytes ≠ [] from hlast t rfl) hpage
    -- no mark is in a text, so there is none at its last byte
    have hnone := (shows_text (fun _ => []) t).found
    have hstate : s = after scan .idle bytes := by rw [h.state, after_append, hidle]
    rw [show t.bytes = bytes ++ [b] from hbytes, marks_concat, ← hstate, List.append_eq_nil_iff,
      Option.toList_eq_nil_iff] at hnone
    have hw := h.plain hnone.2
    rw [← hpage] at hw
    exact woven_page hw
  | tag t =>
    obtain ⟨bytes, hbytes, rfl⟩ := part_last (show (Part.tag t).bytes ≠ [] from tag_ne_nil t) hpage
    obtain ⟨out₁, out₂, s₁, rfl, h₁, h₂⟩ := h.split
    obtain rfl : s₁ = .idle := h₁.state.trans hidle
    rw [Nat.zero_sub] at h₂
    obtain rfl := h₂.of_marks_nil (tag_last t hbytes)
    refine ⟨out₁, ?_, ?_⟩
    · rw [List.dropLast_concat]
      exact woven_page h₁
    · rw [List.append_assoc]
      exact congrArg (out₁ ++ ·) hbytes.symm

end Changing

end Ssi
end Serial2Ethernet
