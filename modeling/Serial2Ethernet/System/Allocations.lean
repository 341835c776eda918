/-
# A pool in use

Any number of `mymem_malloc` and `mymem_free` calls on one pool, from
`mymem_init` on. As long as the count of blocks fits its 16 bits, or finds no
place if it does not, the live allocations lie apart from each other in the
pool and the map says exactly where they are (`safely_iff`).
-/
import Serial2Ethernet.Lib.Run
import Serial2Ethernet.System.Malloc

namespace Serial2Ethernet
namespace Malloc

open Lib

/-- What `mymem_malloc` returned, and for which size. -/
structure Allocation where
  offset : UInt32
  size : UInt32
  deriving DecidableEq, Repr

/-- The entries of the map that belong to an allocation. -/
def Allocation.block (a : Allocation) : Block := ⟨a.offset.toNat / 32, blocks a.size⟩

/-- A pool and the allocations that are not freed yet. -/
structure Session (memx : Bank) where
  pool : Pool memx
  live : List Allocation

/-- A call on the pool; `free k` frees the `k`-th of the live allocations. -/
inductive Act
  | malloc (size : UInt32)
  | free (k : ℕ)
  deriving DecidableEq, Repr

variable {memx : Bank}

/-- One call; the output is its result. There is nothing to call if there is no
`k`-th allocation. -/
def step (s : Session memx) : Act → Except Fault (Session memx × List UInt32)
  | .malloc size => (mymemMalloc size s.pool).map fun r =>
    (⟨r.2, if r.1 = noRoom then s.live else s.live ++ [⟨r.1, size⟩]⟩, [r.1])
  | .free k =>
    match s.live[k]? with
    | none => .ok (s, [])
    | some a => (mymemFree a.offset s.pool).map fun r => (⟨r.2, s.live.eraseIdx k⟩, [r.1.toUInt32])

/-- The pool after `mymem_init`, nothing allocated. -/
def started (p : Pool memx) : Session memx := ⟨mymemInit p, []⟩

/-- The live allocations start at blocks and end in the pool, they lie apart,
and the map has the number of its blocks in each entry of an allocation and 0
elsewhere. -/
structure Safe (s : Session memx) : Prop where
  ready : s.pool.memrdy ≠ 0
  aligned : ∀ a ∈ s.live, 32 ∣ a.offset.toNat
  fits : ∀ a ∈ s.live, a.offset.toNat + a.size.toNat ≤ (memsize memx).toNat
  laid : LaidOn (fun _ => 0) (memtblsize memx) (s.live.map Allocation.block) (entry s.pool.memmap)

/-- The count of blocks of an allocation is below 65536, or what is left of it
in 16 bits finds nothing: no such number of free blocks and, if it is 0, no
used block. -/
def Counted (s : Session memx) : Act → Prop
  | .malloc size => blocks size < 65536 ∨
      if blocks size % 65536 = 0 then ∀ i < memtblsize memx, entry s.pool.memmap i = 0
      else ∀ i, i + blocks size % 65536 ≤ memtblsize memx →
        ¬ Free (entry s.pool.memmap) ⟨i, blocks size % 65536⟩
  | .free _ => True

theorem started_safe (p : Pool memx) : Safe (started p) where
  ready := by
    show (1 : UInt8) ≠ 0
    decide
  aligned := by simp [started]
  fits := by simp [started]
  laid := by
    have hzero : entry (mymemInit p).memmap = fun _ => 0 := by
      funext i
      by_cases hi : i < memtblsize memx
      · rw [entry_eq hi]
        simp [mymemInit]
      · exact entry_past (by omega)
    show LaidOn _ _ [] (entry (mymemInit p).memmap)
    rw [hzero]
    exact LaidOn.nil _ _

theorem Safe.blocks_lt {p : Pool memx} {live : List Allocation} {a : Allocation}
    (h : Safe ⟨p, live ++ [a]⟩) : blocks a.size < 65536 := by
  have hfits := h.fits a (by simp)
  have := memtblsize_le memx
  rw [memsize_eq] at hfits
  unfold blocks
  omega

theorem Safe.snoc {s : Session memx} {p : Pool memx} {r size : UInt32} {i : ℕ} (h : Safe s) (h0 : size ≠ 0)
    (hfits : i + blocks size ≤ memtblsize memx) (hfree : Free (entry s.pool.memmap) ⟨i, blocks size⟩)
    (hoffset : r.toNat = i * 32) (hrdy : p.memrdy = s.pool.memrdy)
    (hentry : entry p.memmap = fill (entry s.pool.memmap) ⟨i, blocks size⟩ (blocks size)) :
    Safe ⟨p, s.live ++ [⟨r, size⟩]⟩ := by
  have hblock : Allocation.block ⟨r, size⟩ = ⟨i, blocks size⟩ := by
    unfold Allocation.block
    rw [hoffset, Nat.mul_div_cancel _ (by decide)]
  have hinside : r.toNat + size.toNat ≤ (memsize memx).toNat := by
    rw [hoffset, memsize_eq]
    unfold blocks at hfits
    omega
  refine ⟨hrdy ▸ h.ready, List.forall_mem_append.mpr ⟨h.aligned, ?_⟩,
    List.forall_mem_append.mpr ⟨h.fits, ?_⟩, ?_⟩
  · rw [List.forall_mem_singleton]
    exact ⟨i, hoffset.trans (Nat.mul_comm i 32)⟩
  · rw [List.forall_mem_singleton]
    exact hinside
  · dsimp only
    rw [hentry, List.map_append, List.map_singleton, hblock]
    exact h.laid.take (blocks_pos h0) hfits hfree

/-- A size whose count of blocks comes out as 0 finds nothing, or what it
leaves is not safe. -/
theorem malloc_uncounted {s : Session memx} (h : Safe s) {size : UInt32} (h0 : size ≠ 0)
    (hk : blocks size % 65536 = 0) :
    ∃ s' o, step s (.malloc size) = .ok (s', o) ∧ (Safe s' ↔ Counted s (.malloc size)) := by
  have hlarge : ¬ blocks size < 65536 := by
    have := blocks_pos h0
    omega
  have hcounted : Counted s (.malloc size) ↔ ∀ i < memtblsize memx, entry s.pool.memmap i = 0 := by
    show _ ∨ (if _ then _ else _) ↔ _
    rw [or_iff_right hlarge, if_pos hk]
  obtain ⟨r, hok, hcase⟩ := mymemMalloc_zero s.pool h0 (UInt16.toNat_inj.mp ((toNat_nmembOf memx size).trans hk))
  rw [ready_of_memrdy h.ready] at hok hcase
  rcases hcase with ⟨hr, hzero⟩ | ⟨hroom, i, hi, hused⟩
  · refine ⟨s, [noRoom], ?_, fun _ => hcounted.mpr hzero, fun _ => h⟩
    simp [step, hok, hr, Except.map]
  · refine ⟨⟨s.pool, s.live ++ [⟨r, size⟩]⟩, [r], ?_, ?_, ?_⟩
    · simp [step, hok, hroom, Except.map]
    · exact fun hsafe => absurd hsafe.blocks_lt hlarge
    · exact fun hc => absurd (hcounted.mp hc i hi) hused

theorem malloc_safe_iff {s : Session memx} (h : Safe s) (size : UInt32) :
    ∃ s' o, step s (.malloc size) = .ok (s', o) ∧ (Safe s' ↔ Counted s (.malloc size)) := by
  have hready : Malloc.ready s.pool = s.pool := ready_of_memrdy h.ready
  have hnmemb := toNat_nmembOf memx size
  by_cases h0 : size = 0
  · refine ⟨s, [noRoom], ?_, fun _ => .inl (by rw [h0]; decide), fun _ => h⟩
    simp [step, mymemMalloc, h0, hready, Except.map]
  by_cases hk : blocks size % 65536 = 0
  · exact malloc_uncounted h h0 hk
  obtain ⟨r, p', hok, hcase⟩ := mymemMalloc_spec s.pool h0 (by omega)
  rw [hready, hnmemb] at hcase
  rcases hcase with ⟨hr, hp, hfull⟩ | ⟨i, htop, hroom, hoffset, hrdy, hentry⟩
  · refine ⟨s, [noRoom], ?_, fun _ => .inr ?_, fun _ => h⟩
    · simp [step, hok, hr, hp, Except.map]
    · rw [if_neg hk]
      exact hfull
  · refine ⟨⟨p', s.live ++ [⟨r, size⟩]⟩, [r], ?_, fun hsafe => .inl hsafe.blocks_lt, ?_⟩
    · simp [step, hok, hroom, Except.map]
    · rintro (hlt | hnone)
      · rw [Nat.mod_eq_of_lt hlt] at htop hentry
        exact h.snoc h0 htop.fits htop.free hoffset hrdy hentry
      · rw [if_neg hk] at hnone
        exact absurd htop.free (hnone i htop.fits)

theorem free_safe {s : Session memx} (h : Safe s) (k : ℕ) :
    ∃ s' o, step s (.free k) = .ok (s', o) ∧ Safe s' := by
  cases hget : s.live[k]? with
  | none => exact ⟨s, [], by simp [step, hget], h⟩
  | some a =>
    obtain ⟨hlt, ha⟩ := List.getElem?_eq_some_iff.mp hget
    obtain ⟨as, cs, hlive, hk⟩ : ∃ as cs, s.live = as ++ a :: cs ∧ as.length = k :=
      ⟨s.live.take k, s.live.drop (k + 1), by simp [← ha], by simp; omega⟩
    have hmem : a ∈ s.live := by simp [hlive]
    have hmemBlock : a.block ∈ s.live.map Allocation.block := List.mem_map_of_mem hmem
    have hoffset : a.offset.toNat = a.block.start * 32 := (Nat.div_mul_cancel (h.aligned a hmem)).symm
    obtain ⟨p', hok, hrdy, hentry⟩ := mymemFree_block (b := a.block) h.ready hoffset
      (h.laid.pos _ hmemBlock) (h.laid.fits _ hmemBlock) (h.laid.at_start hmemBlock)
    have herase : s.live.eraseIdx k = as ++ cs := by
      rw [hlive, List.eraseIdx_append_of_length_le (by omega), hk, Nat.sub_self]
      rfl
    have hsub : ∀ c ∈ as ++ cs, c ∈ s.live := by
      intro c hc
      rw [hlive]
      exact ((List.Sublist.refl as).append (List.sublist_cons_self a cs)).subset hc
    refine ⟨⟨p', s.live.eraseIdx k⟩, [0], by simp [step, hget, hok, Except.map], ?_⟩
    rw [herase]
    refine ⟨hrdy ▸ h.ready, fun c hc => h.aligned c (hsub c hc), fun c hc => h.fits c (hsub c hc), ?_⟩
    have hlaid := h.laid
    rw [hlive, List.map_append, List.map_cons] at hlaid
    dsimp only
    rw [hentry, List.map_append]
    exact hlaid.release

/-- **The pool is safe exactly as long as every size is counted.** -/
theorem safely_iff (p : Pool memx) (as : List Act) :
    Safely step Safe (started p) as ↔ Meets step Counted (started p) as := by
  refine safely_iff_meets Safe Counted (fun s a hs => ?_) as (started_safe p)
  cases a with
  | malloc size => exact malloc_safe_iff hs size
  | free k =>
    obtain ⟨s', o, hok, hs'⟩ := free_safe hs k
    exact ⟨s', o, hok, fun _ => trivial, fun _ => hs'⟩

/-- An allocation of two blocks and one of 65536 blocks, whose count is 0: it
returns an offset inside the first, and freeing it writes past the map. -/
theorem not_safely : ¬ ∀ as : List Act,
    Safely step Safe (started (⟨Vector.replicate _ 0, 0⟩ : Pool .sramccm)) as := by
  intro h
  obtain ⟨s', o, hrun, -⟩ := (h [.malloc 64, .malloc 2097152, .free 1]).run
  have hfault : (run step (started (⟨Vector.replicate _ 0, 0⟩ : Pool .sramccm))
      [.malloc 64, .malloc 2097152, .free 1]).map (fun _ => ()) = .error (.write 1920) := by
    decide +kernel
  rw [hrun] at hfault
  cases hfault

end Malloc
end Serial2Ethernet
