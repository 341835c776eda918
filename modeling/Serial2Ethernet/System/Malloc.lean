/-
# The memory pools

Three pools of 32-byte blocks, each with a map of one halfword per block: 0
for a free block, else the number of blocks of the allocation it belongs to.
`mymem_malloc` looks for room from the top of the map downwards, `mymem_free`
releases as many entries as the first one says.
-/
import Serial2Ethernet.Hardware.Board
import Serial2Ethernet.Lib.Layout

namespace Serial2Ethernet
namespace Malloc

open Lib

/-- The pools. -/
inductive Bank
  | sramin
  | sramex
  | sramccm
  deriving DecidableEq, Repr

def memsize : Bank → UInt32
  | .sramin => 100 * 1024
  | .sramex => 200 * 1024
  | .sramccm => 60 * 1024

def memblksize : Bank → UInt32
  | .sramin => 32
  | .sramex => 32
  | .sramccm => 32

def memtblsize (memx : Bank) : ℕ := (memsize memx / memblksize memx).toNat

/-- The map of a pool, and whether the pool is initialized. The bytes of the
pool themselves are the callers'. -/
structure Pool (memx : Bank) where
  memmap : Vector UInt16 (memtblsize memx)
  memrdy : UInt8

/-- What `mymem_malloc` returns if there is no room. -/
def noRoom : UInt32 := 0xFFFFFFFF

section Source

variable {memx : Bank} {n : ℕ}

/-- Initialize a pool. -/
def mymemInit (_p : Pool memx) : Pool memx := ⟨Vector.replicate _ 0, 1⟩

/-- The pool as `mymem_malloc` finds it: initialized if it was not. -/
def ready (p : Pool memx) : Pool memx := if p.memrdy = 0 then mymemInit p else p

/-- The loop over the map, from the entry below `offset` down. -/
def scan (memmap : Vector UInt16 n) (nmemb : UInt16) : (offset : ℕ) → (cmemb : UInt16) → Except Fault (Option ℕ)
  | 0, _ => .ok none
  | offset + 1, cmemb =>
    if h : offset < n then
      let cmemb := if memmap[offset] = 0 then cmemb + 1 else 0
      if cmemb = nmemb then .ok (some offset) else scan memmap nmemb offset cmemb
    else .error (.read offset)

/-- The loop `memmap[i] = v`, `k` times from `i` on. -/
def mark (v : UInt16) : (k i : ℕ) → Vector UInt16 n → Except Fault (Vector UInt16 n)
  | 0, _, memmap => .ok memmap
  | k + 1, i, memmap => if h : i < n then mark v k (i + 1) (memmap.set i v) else .error (.write i)

/-- The number of blocks for the size, in the 16 bits it is computed in. -/
def nmembOf (memx : Bank) (size : UInt32) : UInt16 :=
  let nmemb := (size / memblksize memx).toUInt16
  if size % memblksize memx ≠ 0 then nmemb + 1 else nmemb

/-- Allocate memory: the offset in the pool, or `noRoom`. -/
def mymemMalloc (size : UInt32) (p : Pool memx) : Except Fault (UInt32 × Pool memx) :=
  let p := ready p
  if size = 0 then .ok (noRoom, p)
  else
    let nmemb := nmembOf memx size
    match scan p.memmap nmemb (memtblsize memx) 0 with
    | .error e => .error e
    | .ok none => .ok (noRoom, p)
    | .ok (some offset) =>
      match mark nmemb nmemb.toNat offset p.memmap with
      | .error e => .error e
      | .ok memmap => .ok (UInt32.ofNat offset * memblksize memx, { p with memmap })

/-- Free memory at an offset; the result is 0, 1 if the pool was not
initialized, or 2 if the offset is not in the pool. -/
def mymemFree (offset : UInt32) (p : Pool memx) : Except Fault (UInt8 × Pool memx) :=
  if p.memrdy = 0 then .ok (1, mymemInit p)
  else if offset < memsize memx then
    let index := (offset / memblksize memx).toNat
    if h : index < memtblsize memx then
      match mark 0 p.memmap[index].toNat index p.memmap with
      | .error e => .error e
      | .ok memmap => .ok (0, { p with memmap })
    else .error (.read index)
  else .ok (2, p)

/-- A pointer into a pool by its offset; `none` is `NULL`. -/
abbrev Ptr := Option UInt32

/-- Free memory; `NULL` is ignored. -/
def myfree (ptr : Ptr) (p : Pool memx) : Except Fault (Pool memx) :=
  match ptr with
  | none => .ok p
  | some offset => (mymemFree offset p).map (·.2)

/-- Allocate memory. -/
def mymalloc (size : UInt32) (p : Pool memx) : Except Fault (Ptr × Pool memx) :=
  (mymemMalloc size p).map fun r => (if r.1 = noRoom then none else some r.1, r.2)

end Source

/-! ### The numbers of a pool -/

variable {memx : Bank}

theorem memblksize_eq (memx : Bank) : memblksize memx = 32 := by
  cases memx <;> rfl

theorem memsize_eq (memx : Bank) : (memsize memx).toNat = memtblsize memx * 32 := by
  cases memx <;> rfl

theorem memtblsize_le (memx : Bank) : memtblsize memx ≤ 6400 := by
  cases memx <;> decide

theorem memtblsize_lt (memx : Bank) : memtblsize memx < 65536 := by
  have := memtblsize_le memx
  omega

/-- The blocks an allocation of the size needs. -/
def blocks (size : UInt32) : ℕ := (size.toNat + 31) / 32

theorem blocks_pos {size : UInt32} (h : size ≠ 0) : 0 < blocks size := by
  have : size.toNat ≠ 0 := fun e => h (UInt32.toNat_inj.mp e)
  unfold blocks
  omega

/-- The count of blocks is right up to 16 bits. -/
theorem toNat_nmembOf (memx : Bank) (size : UInt32) : (nmembOf memx size).toNat = blocks size % 65536 := by
  have hmod : (size % 32).toNat = size.toNat % 32 := UInt32.toNat_mod ..
  have hdiv : (size / 32).toUInt16.toNat = size.toNat / 32 % 65536 := by
    rw [UInt32.toNat_toUInt16, UInt32.toNat_div]
    rfl
  unfold nmembOf blocks
  rw [memblksize_eq]
  dsimp only
  by_cases h : size % 32 = 0
  · have h0 : size.toNat % 32 = 0 := by rw [← hmod, h]; rfl
    rw [if_neg (not_not.mpr h), hdiv]
    omega
  · have h0 : size.toNat % 32 ≠ 0 := fun e => h (UInt32.toNat_inj.mp (hmod.trans e))
    rw [if_pos h, UInt16.toNat_add, hdiv]
    simp only [UInt16.toNat_one]
    omega

/-- The map as a table of numbers; past its end there is nothing. -/
def entry {n : ℕ} (memmap : Vector UInt16 n) (i : ℕ) : ℕ := (memmap[i]?.getD 0).toNat

theorem entry_eq {n i : ℕ} {memmap : Vector UInt16 n} (h : i < n) : entry memmap i = memmap[i].toNat := by
  simp [entry, h]

theorem entry_eq_zero {n i : ℕ} {memmap : Vector UInt16 n} (h : i < n) :
    entry memmap i = 0 ↔ memmap[i] = 0 := by
  rw [entry_eq h, ← UInt16.toNat_inj]
  rfl

theorem entry_past {n i : ℕ} {memmap : Vector UInt16 n} (h : n ≤ i) : entry memmap i = 0 := by
  simp [entry, h]

/-- Maps with the same entries are the same. -/
theorem entry_inj {n : ℕ} {a b : Vector UInt16 n} (h : entry a = entry b) : a = b := by
  refine Vector.ext fun i hi => ?_
  have hi' := congrFun h i
  rw [entry_eq hi, entry_eq hi] at hi'
  exact UInt16.toNat_inj.mp hi'

theorem entry_set {n i : ℕ} {memmap : Vector UInt16 n} (h : i < n) (v : UInt16) :
    entry (memmap.set i v) = fill (entry memmap) ⟨i, 1⟩ v.toNat := by
  funext j
  by_cases hj : j = i
  · rw [fill_inside (by rw [covers_mk]; omega), hj, entry_eq h, Vector.getElem_set_self]
  · rw [fill_outside (by rw [covers_mk]; omega)]
    by_cases hlt : j < n
    · rw [entry_eq hlt, entry_eq hlt, Vector.getElem_set_ne _ _ (Ne.symm hj)]
    · rw [entry_past (by omega), entry_past (by omega)]

/-- `mark` fills the entries if they are in the map. -/
theorem mark_ok {n : ℕ} (v : UInt16) : ∀ {k i : ℕ} (memmap : Vector UInt16 n), i + k ≤ n →
    ∃ memmap', mark v k i memmap = .ok memmap' ∧ entry memmap' = fill (entry memmap) ⟨i, k⟩ v.toNat := by
  intro k
  induction k with
  | zero =>
    intro i memmap _
    refine ⟨memmap, rfl, funext fun j => (fill_outside ?_ _).symm⟩
    rw [covers_mk]
    omega
  | succ k ih =>
    intro i memmap h
    have hi : i < n := by omega
    obtain ⟨memmap', hok, hentry⟩ := ih (i := i + 1) (memmap.set i v) (by omega)
    refine ⟨memmap', ?_, ?_⟩
    · rw [mark, dif_pos hi]
      exact hok
    · rw [hentry, entry_set hi]
      funext j
      unfold fill
      simp only [covers_mk]
      by_cases hj : j = i
      · rw [if_neg (by omega), if_pos (by omega), if_pos (by omega)]
      · by_cases hin : i + 1 ≤ j ∧ j < i + 1 + k
        · rw [if_pos hin, if_pos (by omega)]
        · rw [if_neg hin, if_neg (by omega), if_neg (by omega)]

/-! ### The scan -/

section Scan

variable {n : ℕ} {memmap : Vector UInt16 n} {nmemb cmemb : UInt16} {offset : ℕ}

theorem toNat_succ {c : UInt16} (h : c.toNat + 1 < 65536) : (c + 1).toNat = c.toNat + 1 := by
  rw [UInt16.toNat_add]
  exact Nat.mod_eq_of_lt h

theorem scan_succ (h : offset < n) : scan memmap nmemb (offset + 1) cmemb =
    if (if entry memmap offset = 0 then cmemb + 1 else 0) = nmemb then .ok (some offset)
    else scan memmap nmemb offset (if entry memmap offset = 0 then cmemb + 1 else 0) := by
  rw [scan, dif_pos h]
  simp only [entry_eq_zero h]

/-- What the scan for at least one block finds from an entry down, if it has
counted the gap that starts there and nothing fits higher up. -/
theorem scan_spec (memmap : Vector UInt16 n) (hn : n < 65536) (hpos : 0 < nmemb.toNat) :
    ∀ (offset : ℕ) (cmemb : UInt16), offset ≤ n → Gap (entry memmap) n offset cmemb.toNat →
      (∀ j, offset ≤ j → j + nmemb.toNat ≤ n → ¬ Free (entry memmap) ⟨j, nmemb.toNat⟩) →
      ∃ found, scan memmap nmemb offset cmemb = .ok found ∧
        match found with
        | none => ∀ j, j + nmemb.toNat ≤ n → ¬ Free (entry memmap) ⟨j, nmemb.toNat⟩
        | some i => TopRun (entry memmap) n i nmemb.toNat := by
  intro offset
  induction offset with
  | zero => exact fun cmemb _ _ hnone => ⟨none, rfl, fun j => hnone j (Nat.zero_le j)⟩
  | succ offset ih =>
    intro cmemb hle hgap hnone
    rw [scan_succ hle]
    -- what has been counted so far was too little
    have hshort : cmemb.toNat < nmemb.toNat := by
      by_contra hge
      have hfits := hgap.fits
      exact hnone (offset + 1) le_rfl (by omega) ((hgap.free_iff (by omega)).mpr (by omega))
    obtain ⟨c, hc, hgap', hle'⟩ : ∃ c : UInt16, (if entry memmap offset = 0 then cmemb + 1 else 0) = c ∧
        Gap (entry memmap) n offset c.toNat ∧ c.toNat ≤ nmemb.toNat := by
      by_cases hfree : entry memmap offset = 0
      · have hnat : (cmemb + 1).toNat = cmemb.toNat + 1 := toNat_succ (by have := hgap.fits; omega)
        exact ⟨cmemb + 1, if_pos hfree, hnat ▸ hgap.cons hfree, by omega⟩
      · exact ⟨0, if_neg hfree, gap_used hle hfree, Nat.zero_le _⟩
    rw [hc]
    by_cases heq : c = nmemb
    · rw [if_pos heq]
      subst heq
      exact ⟨some offset, rfl, hgap'.free, hgap'.fits, fun j hj => hnone j hj⟩
    · rw [if_neg heq]
      have hne : c.toNat ≠ nmemb.toNat := fun e => heq (UInt16.toNat_inj.mp e)
      refine ih c (by omega) hgap' fun j hj hfits hfree => ?_
      rcases Nat.lt_or_eq_of_le hj with hlt | rfl
      · exact hnone j hlt hfits hfree
      · have hcount := (hgap'.free_iff hfits).mp hfree
        omega

/-- What the scan for no block finds: an entry that is used. -/
theorem scan_zero (memmap : Vector UInt16 n) (hn : n < 65536) :
    ∀ (offset : ℕ) (cmemb : UInt16), offset + cmemb.toNat ≤ n → ∃ found, scan memmap 0 offset cmemb = .ok found ∧
      match found with
      | none => ∀ j < offset, entry memmap j = 0
      | some i => i < n ∧ entry memmap i ≠ 0 := by
  intro offset
  induction offset with
  | zero => exact fun cmemb _ => ⟨none, rfl, fun j hj => absurd hj (Nat.not_lt_zero j)⟩
  | succ offset ih =>
    intro cmemb hle
    have hlt : offset < n := by omega
    rw [scan_succ hlt]
    by_cases hfree : entry memmap offset = 0
    · have hnat : (cmemb + 1).toNat = cmemb.toNat + 1 := toNat_succ (by omega)
      have hne : cmemb + 1 ≠ 0 := fun e => by simp [e] at hnat
      rw [if_pos hfree, if_neg hne]
      obtain ⟨found, hok, hfound⟩ := ih (cmemb + 1) (by omega)
      refine ⟨found, hok, ?_⟩
      cases found with
      | none =>
        intro j hj
        rcases Nat.lt_succ_iff_lt_or_eq.mp hj with h | rfl
        · exact hfound j h
        · exact hfree
      | some i => exact hfound
    · rw [if_neg hfree, if_pos rfl]
      exact ⟨some offset, rfl, hlt, hfree⟩

end Scan

/-! ### Allocating and freeing -/

/-- No place for `k` blocks in the map. -/
def Full {n : ℕ} (memmap : Vector UInt16 n) (k : ℕ) : Prop :=
  ∀ i, i + k ≤ n → ¬ Free (entry memmap) ⟨i, k⟩

theorem ready_of_memrdy {p : Pool memx} (h : p.memrdy ≠ 0) : ready p = p := if_neg h

/-- The offset of an entry. -/
theorem toNat_offset {i : ℕ} (h : i < memtblsize memx) :
    (UInt32.ofNat i * memblksize memx).toNat = i * 32 := by
  have := memtblsize_le memx
  rw [memblksize_eq, UInt32.toNat_mul, UInt32.toNat_ofNat_of_lt' (by unfold UInt32.size; omega)]
  exact Nat.mod_eq_of_lt (by simp; omega)

theorem offset_ne_noRoom {i : ℕ} (h : i < memtblsize memx) :
    UInt32.ofNat i * memblksize memx ≠ noRoom := by
  intro e
  have := memtblsize_le memx
  have hi := toNat_offset h
  rw [e] at hi
  have : noRoom.toNat = 4294967295 := rfl
  omega

/-- An allocation of at least one block takes the highest place. -/
theorem mymemMalloc_spec {size : UInt32} (p : Pool memx) (h0 : size ≠ 0)
    (hk : 0 < (nmembOf memx size).toNat) : ∃ r p', mymemMalloc size p = .ok (r, p') ∧
      (r = noRoom ∧ p' = ready p ∧ Full (ready p).memmap (nmembOf memx size).toNat ∨
        ∃ i, TopRun (entry (ready p).memmap) (memtblsize memx) i (nmembOf memx size).toNat ∧
          r ≠ noRoom ∧ r.toNat = i * 32 ∧ p'.memrdy = (ready p).memrdy ∧
          entry p'.memmap = fill (entry (ready p).memmap) ⟨i, (nmembOf memx size).toNat⟩
            (nmembOf memx size).toNat) := by
  obtain ⟨found, hscan, hfound⟩ := scan_spec (ready p).memmap (memtblsize_lt memx) hk (memtblsize memx) 0 le_rfl
    (gap_end _ _) fun j hj hfits => by omega
  unfold mymemMalloc
  rw [if_neg h0]
  dsimp only
  rw [hscan]
  cases found with
  | none => exact ⟨noRoom, ready p, rfl, .inl ⟨rfl, rfl, hfound⟩⟩
  | some i =>
    obtain ⟨memmap', hmark, hentry⟩ := mark_ok (nmembOf memx size) (ready p).memmap hfound.fits
    have hi := hfound.lt hk
    dsimp only
    rw [hmark]
    exact ⟨_, _, rfl, .inr ⟨i, hfound, offset_ne_noRoom hi, toNat_offset hi, rfl, hentry⟩⟩

/-- If the count of blocks comes out as 0, the result is an entry that is
used, and no entry changes. -/
theorem mymemMalloc_zero {size : UInt32} (p : Pool memx) (h0 : size ≠ 0) (hk : nmembOf memx size = 0) :
    ∃ r, mymemMalloc size p = .ok (r, ready p) ∧
      (r = noRoom ∧ (∀ i < memtblsize memx, entry (ready p).memmap i = 0) ∨
        r ≠ noRoom ∧ ∃ i < memtblsize memx, entry (ready p).memmap i ≠ 0) := by
  obtain ⟨found, hscan, hfound⟩ := scan_zero (ready p).memmap (memtblsize_lt memx) (memtblsize memx) 0 le_rfl
  unfold mymemMalloc
  rw [if_neg h0]
  dsimp only
  rw [hk, hscan]
  cases found with
  | none => exact ⟨noRoom, rfl, .inl ⟨rfl, hfound⟩⟩
  | some i => exact ⟨_, rfl, .inr ⟨offset_ne_noRoom hfound.1, i, hfound⟩⟩

/-- Freeing the first entry of a block frees the block. -/
theorem mymemFree_block {p : Pool memx} {offset : UInt32} {b : Block} (hrdy : p.memrdy ≠ 0)
    (hoffset : offset.toNat = b.start * 32) (hpos : 0 < b.len) (hfits : b.start + b.len ≤ memtblsize memx)
    (hlen : entry p.memmap b.start = b.len) : ∃ p', mymemFree offset p = .ok (0, p') ∧
      p'.memrdy = p.memrdy ∧ entry p'.memmap = fill (entry p.memmap) b 0 := by
  have hin : b.start < memtblsize memx := by omega
  have hlt : offset < memsize memx := by
    rw [UInt32.lt_iff_toNat_lt, memsize_eq, hoffset]
    omega
  have hindex : (offset / memblksize memx).toNat = b.start := by
    rw [memblksize_eq, UInt32.toNat_div, hoffset]
    exact Nat.mul_div_cancel _ (by decide)
  have hcount : p.memmap[b.start].toNat = b.len := by rw [← entry_eq hin, hlen]
  obtain ⟨memmap', hmark, hentry⟩ := mark_ok 0 p.memmap hfits
  refine ⟨{ p with memmap := memmap' }, ?_, rfl, hentry⟩
  unfold mymemFree
  rw [if_neg hrdy, if_pos hlt]
  simp only [hindex, dif_pos hin, hcount, hmark]

/-- **An allocation succeeds exactly when there is room**, and takes the
highest place. -/
theorem mymemMalloc_noRoom_iff (p : Pool memx) {size : UInt32} (h0 : 0 < size) (hle : size ≤ memsize memx) :
    ∃ r p', mymemMalloc size p = .ok (r, p') ∧
      (r = noRoom ↔ ∀ i, i + blocks size ≤ memtblsize memx →
        ¬ Free (entry (ready p).memmap) ⟨i, blocks size⟩) ∧
      (r = noRoom → p'.memmap = (ready p).memmap) ∧
      (r ≠ noRoom → ∃ i, r.toNat = i * 32 ∧
        TopRun (entry (ready p).memmap) (memtblsize memx) i (blocks size) ∧
        ∀ j, entry p'.memmap j =
          if i ≤ j ∧ j < i + blocks size then blocks size else entry (ready p).memmap j) := by
  have hne : size ≠ 0 := fun e => by simp [e] at h0
  have hpos := blocks_pos hne
  have hk : (nmembOf memx size).toNat = blocks size := by
    have hle' := UInt32.le_iff_toNat_le.mp hle
    have := memtblsize_le memx
    rw [memsize_eq] at hle'
    rw [toNat_nmembOf]
    refine Nat.mod_eq_of_lt ?_
    unfold blocks
    omega
  obtain ⟨r, p', hok, hcase⟩ := mymemMalloc_spec p hne (hk ▸ hpos)
  rw [hk] at hcase
  refine ⟨r, p', hok, ?_⟩
  rcases hcase with ⟨hr, hp, hfull⟩ | ⟨i, htop, hroom, hoffset, -, hentry⟩
  · exact ⟨⟨fun _ => hfull, fun _ => hr⟩, fun _ => by rw [hp], fun hn => absurd hr hn⟩
  · refine ⟨⟨fun h => absurd h hroom, fun hfull => absurd htop.free (hfull i htop.fits)⟩,
      fun h => absurd h hroom, fun _ => ⟨i, hoffset, htop, fun j => ?_⟩⟩
    rw [hentry]
    rfl

/-- Of an empty pool, 100 bytes take the last four blocks. -/
theorem mymemMalloc_noRoom_iff_empty : ∃ p',
    mymemMalloc 100 (⟨Vector.replicate _ 0, 1⟩ : Pool .sramccm) = .ok (61312, p') ∧
      ∀ j, entry p'.memmap j = if 1916 ≤ j ∧ j < 1920 then 4 else 0 := by
  have hfree : ∀ j, entry (Vector.replicate (memtblsize .sramccm) 0) j = 0 := by
    intro j
    unfold entry
    rw [Vector.getElem?_replicate]
    split <;> rfl
  obtain ⟨r, p', hok, hiff, -, hplace⟩ := mymemMalloc_noRoom_iff (⟨Vector.replicate _ 0, 1⟩ : Pool .sramccm)
    (by decide : (0 : UInt32) < 100) (by decide)
  rw [ready_of_memrdy (by decide)] at hiff hplace
  change _ ↔ ∀ i, i + 4 ≤ 1920 → _ at hiff
  have hroom : r ≠ noRoom := fun h => hiff.mp h 1916 (by decide) fun j _ => hfree j
  obtain ⟨i, hi, htop, hentry⟩ := hplace hroom
  have htop' : i = 1916 := by
    have hfits : i + 4 ≤ 1920 := htop.fits
    rcases Nat.lt_or_eq_of_le (show i ≤ 1916 by omega) with hlt | h
    · exact absurd (fun j _ => hfree j) (htop.top 1916 hlt (by decide))
    · exact h
  subst htop'
  obtain rfl : r = 61312 := UInt32.toNat_inj.mp hi
  refine ⟨p', hok, fun j => ?_⟩
  rw [hentry, hfree]
  rfl

end Malloc
end Serial2Ethernet
