/-
# Formatted decimal numbers

The part of C's formatted input and output that deals in decimal integers:
`sprintf` with the directives %d and %s, `sscanf` with %d and %u. Every
argument is a 32-bit word; %d prints it as a signed number. What a conversion
stores for a number that its type cannot hold is left to the C library, so it
is a parameter.

`sscanf_d` and `sscanf_u` say that a printed word is read back as itself, by
either conversion, whatever follows it that is not a digit.
-/
import Mathlib

namespace Lib

/-! ### Printing -/

/-- An argument of `sprintf`. -/
inductive Arg
  | word (w : UInt32)
  | str (s : List Char)

/-- The word as a signed number, in two's complement. -/
def signed (w : UInt32) : ℤ := if w.toNat < 2 ^ 31 then w.toNat else w.toNat - 2 ^ 32

/-- A number in decimal. -/
def printInt (v : ℤ) : List Char :=
  if v < 0 then '-' :: Nat.toDigits 10 v.natAbs else Nat.toDigits 10 v.natAbs

/-- `sprintf`. -/
def sprintf : (fmt : List Char) → List Arg → List Char
  | [], _ => []
  | '%' :: 'd' :: fmt, .word w :: args => printInt (signed w) ++ sprintf fmt args
  | '%' :: 's' :: fmt, .str s :: args => s ++ sprintf fmt args
  | c :: fmt, args => c :: sprintf fmt args

theorem sprintf_cons {c : Char} (h : c ≠ '%') (fmt : List Char) (args : List Arg) :
    sprintf (c :: fmt) args = c :: sprintf fmt args := by
  rw [sprintf]
  · exact fun _ _ _ _ hc => absurd hc h
  · exact fun _ _ _ _ hc => absurd hc h

/-- A text without directives is printed as it is. -/
theorem sprintf_text : ∀ {text : List Char}, '%' ∉ text → ∀ (fmt : List Char) (args : List Arg),
    sprintf (text ++ fmt) args = text ++ sprintf fmt args
  | [], _, _, _ => rfl
  | c :: text, h, fmt, args => by
    obtain ⟨hc, ht⟩ := not_or.mp (mt List.mem_cons.mpr h)
    rw [List.cons_append, sprintf_cons (Ne.symm hc), sprintf_text ht, List.cons_append]

/-- What a printed number consists of. -/
theorem mem_printInt {c : Char} {v : ℤ} (h : c ∈ printInt v) : c = '-' ∨ c.isDigit = true := by
  have hdig : c ∈ Nat.toDigits 10 v.natAbs → c.isDigit = true :=
    Nat.isDigit_of_mem_toDigits (by decide) (by decide)
  unfold printInt at h
  split at h
  · exact (List.mem_cons.mp h).imp_right hdig
  · exact Or.inr (hdig h)

/-! ### Reading -/

/-- `isspace`. -/
def isSpace (c : Char) : Bool := c = ' ' || (9 ≤ c.toNat && c.toNat ≤ 13)

/-- A sign, if there is one, and what is behind it. -/
def scanSign : List Char → Bool × List Char
  | '-' :: s => (true, s)
  | '+' :: s => (false, s)
  | s => (false, s)

/-- Blanks, perhaps a sign, and digits: the number and what is behind it. -/
def scanInt (s : List Char) : Option (ℤ × List Char) :=
  let r := scanSign (s.dropWhile isSpace)
  let digits := r.2.takeWhile Char.isDigit
  if digits = [] then none
  else
    let n : ℤ := Nat.ofDigitChars 10 digits 0
    some (if r.1 then -n else n, r.2.dropWhile Char.isDigit)

/-- The conversions. -/
inductive Conv
  | d
  | u
  deriving DecidableEq, Repr

/-- What a conversion stores for a number that its type cannot hold. -/
abbrev Overflow := Conv → ℤ → UInt32

/-- What a conversion stores. An unsigned conversion takes a signed number and negates it. -/
def Conv.value (ovf : Overflow) : Conv → ℤ → UInt32
  | .d, v => if -2 ^ 31 ≤ v ∧ v < 2 ^ 31 then UInt32.ofInt v else ovf .d v
  | .u, v => if -2 ^ 32 < v ∧ v < 2 ^ 32 then UInt32.ofInt v else ovf .u v

/-- The words `sscanf` stores, in order: up to the first directive that fails. -/
def sscanf (ovf : Overflow) : (fmt s : List Char) → List UInt32
  | [], _ => []
  | '%' :: 'd' :: fmt, s =>
    match scanInt s with
    | none => []
    | some (v, s) => Conv.value ovf .d v :: sscanf ovf fmt s
  | '%' :: 'u' :: fmt, s =>
    match scanInt s with
    | none => []
    | some (v, s) => Conv.value ovf .u v :: sscanf ovf fmt s
  | _ :: _, [] => []
  | c :: fmt, c' :: s => if c' = c then sscanf ovf fmt s else []

/-- The numbers `sscanf` reads, each with the conversion that reads it. -/
def scanned : (fmt s : List Char) → List (Conv × ℤ)
  | [], _ => []
  | '%' :: 'd' :: fmt, s =>
    match scanInt s with
    | none => []
    | some (v, s) => (.d, v) :: scanned fmt s
  | '%' :: 'u' :: fmt, s =>
    match scanInt s with
    | none => []
    | some (v, s) => (.u, v) :: scanned fmt s
  | _ :: _, [] => []
  | c :: fmt, c' :: s => if c' = c then scanned fmt s else []

/-- What is stored is what the conversions make of the numbers. -/
theorem sscanf_eq (ovf : Overflow) (fmt s : List Char) :
    sscanf ovf fmt s = (scanned fmt s).map fun r => r.1.value ovf r.2 := by
  fun_induction scanned fmt s with
  | case1 => rfl
  | case2 fmt s h =>
    rw [sscanf, h]
    rfl
  | case3 fmt s v s' h ih => rw [sscanf, h, List.map_cons, ← ih]
  | case4 fmt s h =>
    rw [sscanf, h]
    rfl
  | case5 fmt s v s' h ih => rw [sscanf, h, List.map_cons, ← ih]
  | case6 => simp_all [sscanf]
  | case7 fmt c s hd hu ih => rw [sscanf, if_pos rfl, ih] <;> assumption
  | case8 c fmt c' s hd hu h =>
    rw [sscanf, if_neg h, List.map_nil]
    · exact hd
    · exact hu

/-- A format reads at most one number for each directive. -/
theorem length_scanned_le (fmt s : List Char) : (scanned fmt s).length ≤ fmt.count '%' := by
  fun_induction scanned fmt s with
  | case1 => simp
  | case2 => simp
  | case3 fmt s v s' h ih =>
    simp
    omega
  | case4 => simp
  | case5 fmt s v s' h ih =>
    simp
    omega
  | case6 => simp
  | case7 fmt c s hd hu ih => exact ih.trans (List.count_le_count_cons ..)
  | case8 => simp

/-- A format without %d reads with %u. -/
theorem conv_scanned {fmt : List Char} (h : 'd' ∉ fmt) (s : List Char) : ∀ r ∈ scanned fmt s, r.1 = .u := by
  fun_induction scanned fmt s with
  | case1 => simp
  | case2 => simp
  | case3 => simp at h
  | case4 => simp
  | case5 fmt s v s' hs ih =>
    simp at h
    simpa using ih h
  | case6 => simp
  | case7 fmt c s hd hu ih => exact ih fun hm => h (List.mem_cons_of_mem _ hm)
  | case8 => simp

/-- A number that its type can hold is stored as it is, if it is not negative. -/
theorem toNat_value (ovf : Overflow) {c : Conv} {v : ℤ} (h0 : 0 ≤ v) (h : v < 2 ^ 31 ∨ c = .u ∧ v < 2 ^ 32) :
    ((c.value ovf v).toNat : ℤ) = v := by
  have hofInt : c.value ovf v = UInt32.ofInt v := by
    cases c with
    | d => exact if_pos ⟨by omega, h.elim id fun h => by cases h.1⟩
    | u => exact if_pos ⟨by omega, by omega⟩
  have hlt : v < 2 ^ 32 := by omega
  rw [hofInt, UInt32.ofInt, Int.emod_eq_of_lt h0 hlt, UInt32.toNat_ofNat_of_lt' (by unfold UInt32.size; omega)]
  exact Int.toNat_of_nonneg h0

/-! ### Reading what was printed -/

/-- The text does not go on with a digit. -/
def NoDigit (s : List Char) : Prop := ∀ c ∈ s.head?, c.isDigit = false

theorem digits_takeWhile {s : List Char} (hs : NoDigit s) (n : ℕ) :
    (Nat.toDigits 10 n ++ s).takeWhile Char.isDigit = Nat.toDigits 10 n := by
  rw [List.takeWhile_append_of_pos fun c hc => Nat.isDigit_of_mem_toDigits (by decide) (by decide) hc]
  cases s with
  | nil => simp
  | cons c s => rw [List.takeWhile_cons_of_neg (by simp [hs c rfl]), List.append_nil]

theorem digits_dropWhile {s : List Char} (hs : NoDigit s) (n : ℕ) :
    (Nat.toDigits 10 n ++ s).dropWhile Char.isDigit = s := by
  rw [List.dropWhile_append_of_pos fun c hc => Nat.isDigit_of_mem_toDigits (by decide) (by decide) hc]
  cases s with
  | nil => rfl
  | cons c s => rw [List.dropWhile_cons_of_neg (by simp [hs c rfl])]

/-- A number in decimal starts with a digit. -/
theorem toDigits_cons (n : ℕ) : ∃ c cs, Nat.toDigits 10 n = c :: cs ∧ c.isDigit = true := by
  cases h : Nat.toDigits 10 n with
  | nil => exact absurd h Nat.toDigits_ne_nil
  | cons c cs =>
    have hc : c ∈ Nat.toDigits 10 n := by rw [h]; exact List.mem_cons_self
    exact ⟨c, cs, rfl, Nat.isDigit_of_mem_toDigits (by decide) (by decide) hc⟩

theorem isDigit_range {c : Char} (h : c.isDigit = true) : 48 ≤ c.toNat ∧ c.toNat ≤ 57 := by
  simpa [Char.isDigit, UInt32.le_iff_toNat_le] using h

theorem isSpace_of_isDigit {c : Char} (h : c.isDigit = true) : isSpace c = false := by
  have hr := isDigit_range h
  have hc : c ≠ ' ' := by
    rintro rfl
    exact absurd h (by decide)
  simp [isSpace, hc]
  omega

theorem scanSign_of_isDigit {c : Char} (h : c.isDigit = true) (s : List Char) :
    scanSign (c :: s) = (false, c :: s) := by
  unfold scanSign
  split
  · exact absurd h (by simp_all)
  · exact absurd h (by simp_all)
  · rfl

/-- A printed number is read back. -/
theorem scanInt_printInt {s : List Char} (hs : NoDigit s) (v : ℤ) :
    scanInt (printInt v ++ s) = some (v, s) := by
  obtain ⟨c, cs, hcs, hc⟩ := toDigits_cons v.natAbs
  have hne : Nat.toDigits 10 v.natAbs ≠ [] := Nat.toDigits_ne_nil
  have hval : Nat.ofDigitChars 10 (Nat.toDigits 10 v.natAbs) 0 = v.natAbs :=
    Nat.ofDigitChars_ten_toDigits
  by_cases hv : v < 0
  · have hsign : scanSign ((printInt v ++ s).dropWhile isSpace) =
        (true, Nat.toDigits 10 v.natAbs ++ s) := by
      rw [printInt, if_pos hv, List.cons_append, List.dropWhile_cons_of_neg (by decide)]
      rfl
    simp only [scanInt, hsign, digits_takeWhile hs, digits_dropWhile hs, hne, if_false, if_true, hval]
    rw [show -(v.natAbs : ℤ) = v by omega]
  · have hsign : scanSign ((printInt v ++ s).dropWhile isSpace) =
        (false, Nat.toDigits 10 v.natAbs ++ s) := by
      rw [printInt, if_neg hv, hcs, List.cons_append,
        List.dropWhile_cons_of_neg (by simp [isSpace_of_isDigit hc]), scanSign_of_isDigit hc]
    simp only [scanInt, hsign, digits_takeWhile hs, digits_dropWhile hs, hne, if_false, hval]
    rw [show (v.natAbs : ℤ) = v by omega]
    simp

theorem signed_cases (w : UInt32) : (w.toNat < 2 ^ 31 ∧ signed w = w.toNat) ∨
    (2 ^ 31 ≤ w.toNat ∧ signed w = w.toNat - 2 ^ 32) := by
  unfold signed
  by_cases h : w.toNat < 2 ^ 31
  · exact Or.inl ⟨h, if_pos h⟩
  · exact Or.inr ⟨by omega, if_neg h⟩

theorem signed_range (w : UInt32) : -2 ^ 31 ≤ signed w ∧ signed w < 2 ^ 31 := by
  have := w.toNat_lt
  have := signed_cases w
  omega

theorem ofInt_signed (w : UInt32) : UInt32.ofInt (signed w) = w := by
  have hw := w.toNat_lt
  have hmod : (signed w % 2 ^ 32).toNat = w.toNat := by
    have := signed_cases w
    omega
  unfold UInt32.ofInt
  rw [hmod, UInt32.ofNat_toNat]

theorem value_signed (ovf : Overflow) (w : UInt32) : ∀ c : Conv, c.value ovf (signed w) = w
  | .d => by rw [Conv.value, if_pos (signed_range w), ofInt_signed]
  | .u => by
    have := signed_range w
    rw [Conv.value, if_pos (by omega), ofInt_signed]

/-- Any other character of the format matches itself. -/
theorem sscanf_char (ovf : Overflow) {c : Char} (h : c ≠ '%') (fmt s : List Char) :
    sscanf ovf (c :: fmt) (c :: s) = sscanf ovf fmt s := by
  rw [sscanf, if_pos rfl]
  · exact fun _ hc => absurd hc h
  · exact fun _ hc => absurd hc h

theorem noDigit_nil : NoDigit [] := by simp [NoDigit]

theorem noDigit_cons {c : Char} (h : c.isDigit = false) (s : List Char) : NoDigit (c :: s) := by
  simpa [NoDigit] using h

section Read

variable (ovf : Overflow) (w : UInt32) (fmt : List Char) {s : List Char} (hs : NoDigit s)
include hs

/-- %d reads a printed word. -/
theorem sscanf_d : sscanf ovf ('%' :: 'd' :: fmt) (printInt (signed w) ++ s) =
    w :: sscanf ovf fmt s := by
  simp only [sscanf, scanInt_printInt hs, value_signed]

/-- %u reads a printed word, also one printed as a negative number. -/
theorem sscanf_u : sscanf ovf ('%' :: 'u' :: fmt) (printInt (signed w) ++ s) =
    w :: sscanf ovf fmt s := by
  simp only [sscanf, scanInt_printInt hs, value_signed]

end Read

end Lib
