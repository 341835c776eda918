/-
# Requests with parameters

A form is sent as `name=value` pairs behind the question mark of a URI, joined
by `&`. The URI of a request has no blank in it, so the end of the last pair
that `extract_uri_parameters` looks for is never there, and what it extracts
are the pairs, the first 48 of them (`extractUriParameters_eq`). A form whose
names and values need no escapes is given to the handler as its names and
values (`formUri_params`); the server does not undo escapes.
-/
import Serial2Ethernet.Http.RequestLine
import Serial2Ethernet.Http.Update

namespace Serial2Ethernet
namespace Httpd

open Lib Lib.Scanner Fs Ssi CgiSsi

/-! ### Pairs -/

theorem cut_of_notMem {c : Char} {s : List Char} (h : c ∉ s) : cut c s = (s, none) := by
  induction s with
  | nil => rfl
  | cons a s ih =>
    rw [List.mem_cons, not_or] at h
    rw [cut, if_neg (Ne.symm h.1), ih h.2]

theorem cut_append {c : Char} {s : List Char} (h : c ∉ s) (rest : List Char) :
    cut c (s ++ c :: rest) = (s, some rest) := by
  induction s with
  | nil => simp [cut]
  | cons a s ih =>
    rw [List.mem_cons, not_or] at h
    rw [List.cons_append, cut, if_neg (Ne.symm h.1), ih h.2]

/-- The loop takes the parts between the separators. -/
theorem extractLoop_eq : ∀ (loop : ℕ) {s : List Char}, ' ' ∉ s →
    extractLoop loop s = ((s.splitOn '&').take loop).map param
  | 0, _, _ => rfl
  | loop + 1, s, hblank => by
    by_cases h : '&' ∈ s
    · obtain ⟨this, next, rfl, hthis⟩ := List.eq_append_cons_of_mem h
      have hnext : ' ' ∉ next := fun hmem => hblank (by simp [hmem])
      rw [extractLoop, cut_append hthis, List.splitOn_append_cons_self_of_not_mem hthis, List.take_succ_cons,
        List.map_cons]
      exact congrArg _ (extractLoop_eq loop hnext)
    · rw [extractLoop, cut_of_notMem h, List.splitOn_eq_singleton h, List.take_succ_cons, List.take_nil]
      dsimp only
      rw [cut_of_notMem hblank]
      rfl

/-- **The parameters are the pairs**, the first 48 of them. -/
theorem extractUriParameters_eq {s : List Char} (hne : s ≠ []) (hblank : ' ' ∉ s) :
    extractUriParameters (some s) = ((s.splitOn '&').take lwipHttpdMaxCgiParameters).map param := by
  cases s with
  | nil => exact absurd rfl hne
  | cons c s => exact extractLoop_eq lwipHttpdMaxCgiParameters hblank

/-! ### Forms -/

/-- A pair as a form sends it. -/
def pair (kv : List Char × List Char) : List Char := kv.1 ++ '=' :: kv.2

/-- The characters that a form sends as they are. -/
def Unescaped (c : Char) : Prop := c.toNat < 256 ∧ c ≠ Char.ofNat 0 ∧ c ≠ ' ' ∧ c ≠ Char.ofNat 0x0D ∧ c ≠ '&'

instance (c : Char) : Decidable (Unescaped c) := inferInstanceAs (Decidable (_ ∧ _))

/-- The names and values of a form. -/
structure IsForm (kvs : List (List Char × List Char)) : Prop where
  name : ∀ kv ∈ kvs, ∀ c ∈ kv.1, Unescaped c ∧ c ≠ '='
  value : ∀ kv ∈ kvs, ∀ c ∈ kv.2, Unescaped c

/-- What a form sends. -/
def encodeQuery (kvs : List (List Char × List Char)) : List Char := ['&'].intercalate (kvs.map pair)

variable {kvs : List (List Char × List Char)}

theorem param_pair {kv : List Char × List Char} (h : '=' ∉ kv.1) : param (pair kv) = ⟨kv.1, some kv.2⟩ := by
  rw [param, pair, cut_append h]

theorem IsForm.pair_chars (h : IsForm kvs) {kv : List Char × List Char} (hkv : kv ∈ kvs) :
    ∀ c ∈ pair kv, Unescaped c := by
  intro c hc
  rcases List.mem_append.mp hc with hc | hc
  · exact (h.name kv hkv c hc).1
  · rcases List.mem_cons.mp hc with rfl | hc
    · decide
    · exact h.value kv hkv c hc

theorem encodeQuery_cons (kv kv' : List Char × List Char) (kvs : List (List Char × List Char)) :
    encodeQuery (kv :: kv' :: kvs) = pair kv ++ '&' :: encodeQuery (kv' :: kvs) := by
  simp [encodeQuery]

/-- A character of what is sent is the separator, or one of a pair. -/
theorem mem_encodeQuery {c : Char} : ∀ {kvs : List (List Char × List Char)}, c ∈ encodeQuery kvs →
    c = '&' ∨ ∃ kv ∈ kvs, c ∈ pair kv
  | [], h => by cases h
  | [kv], h => .inr ⟨kv, List.mem_cons_self, by simpa [encodeQuery] using h⟩
  | kv :: kv' :: kvs, h => by
    rw [encodeQuery_cons, List.mem_append, List.mem_cons] at h
    rcases h with h | rfl | h
    · exact .inr ⟨kv, List.mem_cons_self, h⟩
    · exact .inl rfl
    · rcases mem_encodeQuery h with rfl | ⟨kv₁, hkv, hc⟩
      · exact .inl rfl
      · exact .inr ⟨kv₁, List.mem_cons_of_mem _ hkv, hc⟩

/-- The bytes of a pair and the separator. -/
def pairLength (kv : List Char × List Char) : ℕ := kv.1.length + kv.2.length + 2

theorem length_encodeQuery_le : ∀ kvs : List (List Char × List Char),
    (encodeQuery kvs).length ≤ (kvs.map pairLength).sum
  | [] => by simp [encodeQuery]
  | [kv] => by simp [encodeQuery, pair, pairLength]; omega
  | kv :: kv' :: kvs => by
    have ih := length_encodeQuery_le (kv' :: kvs)
    rw [encodeQuery_cons, List.map_cons, List.sum_cons, List.length_append, List.length_cons, pair, List.length_append,
      List.length_cons, pairLength]
    omega

/-- **The parameters of a form** are its names and values, the first 48 of them. -/
theorem params_query (h : IsForm kvs) :
    extractUriParameters (some (encodeQuery kvs)) = (strings kvs).take lwipHttpdMaxCgiParameters := by
  by_cases hnil : kvs = []
  · rw [hnil]
    rfl
  have hblank : ' ' ∉ encodeQuery kvs := fun hmem => by
    rcases mem_encodeQuery hmem with hamp | ⟨kv, hkv, hc⟩
    · exact absurd hamp (by decide)
    · exact (h.pair_chars hkv _ hc).2.2.1 rfl
  have hsplit : (encodeQuery kvs).splitOn '&' = kvs.map pair := by
    refine List.splitOn_intercalate '&' (fun l hl hmem => ?_) (by simpa using hnil)
    obtain ⟨kv, hkv, rfl⟩ := List.mem_map.mp hl
    exact (h.pair_chars hkv _ hmem).2.2.2.2 rfl
  have hne : encodeQuery kvs ≠ [] := by
    intro hempty
    have hmem : [] ∈ kvs.map pair := by rw [← hsplit, hempty, List.splitOn_nil, List.mem_singleton]
    obtain ⟨kv, -, hkv⟩ := List.mem_map.mp hmem
    simp [pair] at hkv
  rw [extractUriParameters_eq hne hblank, hsplit, ← List.map_take, List.map_map, strings,
    ← List.map_take]
  refine List.map_congr_left fun kv hkv => ?_
  exact param_pair fun hmem => (h.name kv (List.mem_of_mem_take hkv) _ hmem).2 rfl

/-! ### URIs -/

/-- The bytes of a text. -/
def uriBytes (s : List Char) : List UInt8 := s.map fun c => UInt8.ofNat c.toNat

theorem char_byte {c : Char} (h : c.toNat < 256) : Char.ofNat (UInt8.ofNat c.toNat).toNat = c := by
  rw [UInt8.toNat_ofNat_of_lt' h, Char.ofNat_toNat]

theorem chars_uriBytes {s : List Char} (h : ∀ c ∈ s, c.toNat < 256) : chars (uriBytes s) = s := by
  rw [chars, uriBytes, List.map_map]
  calc s.map _ = s.map id := List.map_congr_left fun c hc => char_byte (h c hc)
    _ = s := List.map_id s

theorem splitUri_query {name : List UInt8} (h : 0x3F ∉ name) (q : List UInt8) :
    splitUri (name ++ 0x3F :: q) = (name, some q) := by
  have hbase : ∀ b ∈ name, b ≠ 0x3F := fun b hb he => h (he ▸ hb)
  rw [splitUri, List.dropWhile_append_of_pos (by simpa using hbase), List.dropWhile_cons_of_neg (by simp)]
  dsimp only
  rw [List.takeWhile_append_of_pos (by simpa using hbase), List.takeWhile_cons_of_neg (by simp), List.append_nil]

/-- The URI of a form that is sent to a handler. -/
def formUri (name : List UInt8) (kvs : List (List Char × List Char)) : List UInt8 :=
  name ++ 0x3F :: uriBytes (encodeQuery kvs)

/-- A character of what is sent is a byte, and does not end the URI. -/
theorem encodeQuery_chars (h : IsForm kvs) {c : Char} (hc : c ∈ encodeQuery kvs) :
    c.toNat < 256 ∧ c ≠ Char.ofNat 0 ∧ c ≠ ' ' ∧ c ≠ Char.ofNat 0x0D := by
  rcases mem_encodeQuery hc with rfl | ⟨kv, hkv, hc⟩
  · decide
  · obtain ⟨hbyte, hzero, hblank, hreturn, -⟩ := h.pair_chars hkv c hc
    exact ⟨hbyte, hzero, hblank, hreturn⟩

theorem isUri_form {name : List UInt8} (hname : IsUri name) (h : IsForm kvs) : IsUri (formUri name kvs) := by
  intro b hb
  rcases List.mem_append.mp hb with hb | hb
  · exact hname b hb
  rcases List.mem_cons.mp hb with rfl | hb
  · decide
  obtain ⟨c, hc, rfl⟩ := List.mem_map.mp hb
  obtain ⟨hbyte, hzero, hblank, hreturn⟩ := encodeQuery_chars h hc
  have hback : ∀ {b : UInt8}, UInt8.ofNat c.toNat = b → c = Char.ofNat b.toNat := fun he => he ▸ (char_byte hbyte).symm
  exact ⟨fun he => hzero (hback he), fun he => hblank (hback he), fun he => hreturn (hback he)⟩

/-- **A form sent to a handler** is given to it as its names and values. -/
theorem formUri_params {name : List UInt8} (hname : 0x3F ∉ name) (h : IsForm kvs) :
    (splitUri (formUri name kvs)).1 = name ∧
      extractUriParameters ((splitUri (formUri name kvs)).2.map chars) =
        (strings kvs).take lwipHttpdMaxCgiParameters := by
  rw [formUri, splitUri_query hname]
  refine ⟨rfl, ?_⟩
  rw [Option.map_some, chars_uriBytes fun c hc => (encodeQuery_chars h hc).1, params_query h]

end Httpd
end Serial2Ethernet
