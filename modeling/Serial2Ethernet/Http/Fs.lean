/-
# The file system of the web server

`fs.c` serves the files that are linked into the image. An open file is a slot
of `fs_memory`, found by its address when it is closed. `fsOpen` answers with
the lowest free slot exactly if there is one and the image has a file of the
name (`fsOpen_isSome_iff`); an open that fails gives its slot back
(`fsOpen_none`). Whoever reads a file in pieces, of whatever sizes, gets its
bytes in order, each once (`fsRead_left`).
-/
import Mathlib

namespace Serial2Ethernet
namespace Fs

/-- `LWIP_MAX_OPEN_FILES` -/
abbrev lwipMaxOpenFiles : ℕ := 10

/-- The characters of a literal. -/
def text (s : String) : List UInt8 := s.toList.map fun c => UInt8.ofNat c.toNat

/-- A file of the image, in a list linked by `next`. -/
structure FsdataFile where
  name : List UInt8
  data : List UInt8
  httpHeaderIncluded : Bool
  deriving DecidableEq, Repr

/-- An open file. Its `len` is the length of its data. -/
structure FsFile where
  data : List UInt8
  index : ℕ
  httpHeaderIncluded : Bool
  deriving DecidableEq, Repr

structure FsTable where
  file : FsFile
  inuse : Bool
  deriving DecidableEq, Repr

abbrev FsMemory := Fin lwipMaxOpenFiles → FsTable

def FsTable.setInuse (t : FsTable) (inuse : Bool) : FsTable := { t with inuse }

def FsTable.setFile (t : FsTable) (file : FsFile) : FsTable := { t with file }

/-- The first slot that is not in use. -/
def fsMalloc (m : FsMemory) : Option (Fin lwipMaxOpenFiles) × FsMemory :=
  match (List.finRange lwipMaxOpenFiles).find? fun i => (m i).inuse = false with
  | some i => (some i, Function.update m i ((m i).setInuse true))
  | none => (none, m)

def fsFree (m : FsMemory) (file : Fin lwipMaxOpenFiles) : FsMemory :=
  Function.update m file ((m file).setInuse false)

/-- Open a file: `none` is the null pointer. -/
def fsOpen (fsRoot : List FsdataFile) (m : FsMemory) (name : List UInt8) :
    Option (Fin lwipMaxOpenFiles) × FsMemory :=
  match fsMalloc m with
  | (none, m) => (none, m)
  | (some i, m) =>
    match fsRoot.find? fun f => f.name = name with
    | some f => (some i, Function.update m i ((m i).setFile ⟨f.data, f.data.length, f.httpHeaderIncluded⟩))
    | none => (none, fsFree m i)

def fsClose (m : FsMemory) (file : Fin lwipMaxOpenFiles) : FsMemory := fsFree m file

/-- Read up to `count` bytes; `none` is the answer -1. -/
def fsRead (file : FsFile) (count : ℕ) : Option (List UInt8) × FsFile :=
  if file.index = file.data.length then (none, file)
  else
    let read := min (file.data.length - file.index) count
    (some ((file.data.drop file.index).take read), { file with index := file.index + read })

def fsBytesLeft (file : FsFile) : ℤ := file.data.length - file.index

/-! ### Opening and closing -/

theorem fsClose_inuse (m : FsMemory) (i : Fin lwipMaxOpenFiles) : (fsClose m i i).inuse = false := by
  unfold fsClose fsFree
  rw [Function.update_self]
  rfl

theorem fsClose_other (m : FsMemory) {i k : Fin lwipMaxOpenFiles} (h : k ≠ i) : fsClose m i k = m k := by
  unfold fsClose fsFree
  rw [Function.update_of_ne h]

section Table

variable {fsRoot : List FsdataFile} {m m' : FsMemory} {name : List UInt8} {i : Fin lwipMaxOpenFiles}

/-- All the slots are in use. -/
def Full (m : FsMemory) : Prop := ∀ i, (m i).inuse = true

theorem fsMalloc_some (h : fsMalloc m = (some i, m')) :
    (m i).inuse = false ∧ m' = Function.update m i ((m i).setInuse true) := by
  unfold fsMalloc at h
  split at h
  · next j hj =>
    obtain ⟨hij, rfl⟩ := Prod.mk.inj h
    obtain rfl := Option.some.inj hij
    exact ⟨by simpa using List.find?_some hj, rfl⟩
  · cases h

theorem fsMalloc_none (h : fsMalloc m = (none, m')) : Full m ∧ m' = m := by
  unfold fsMalloc at h
  split at h
  · cases h
  · next hnone =>
    obtain ⟨-, rfl⟩ := Prod.mk.inj h
    refine ⟨fun i => ?_, rfl⟩
    have hi := List.find?_eq_none.mp hnone i (List.mem_finRange i)
    simpa using hi

/-- The slot was free, and it holds the file now, with nothing left to read. -/
theorem fsOpen_some (h : fsOpen fsRoot m name = (some i, m')) :
    ∃ f, fsRoot.find? (fun f => f.name = name) = some f ∧ (m i).inuse = false ∧
      m' = Function.update m i ⟨⟨f.data, f.data.length, f.httpHeaderIncluded⟩, true⟩ := by
  unfold fsOpen at h
  cases hm : fsMalloc m with
  | mk r m₁ =>
    rw [hm] at h
    cases r with
    | none => cases h
    | some j =>
      obtain ⟨hfree, rfl⟩ := fsMalloc_some hm
      cases hf : fsRoot.find? fun f => f.name = name with
      | none => rw [hf] at h; cases h
      | some f =>
        rw [hf] at h
        obtain ⟨hij, rfl⟩ := Prod.mk.inj h
        obtain rfl := Option.some.inj hij
        exact ⟨f, rfl, hfree, by rw [Function.update_idem, Function.update_self]; rfl⟩

/-- An open that fails leaves the table as it was. -/
theorem fsOpen_none (h : fsOpen fsRoot m name = (none, m')) :
    (Full m ∨ fsRoot.find? (fun f => f.name = name) = none) ∧ m' = m := by
  unfold fsOpen at h
  cases hm : fsMalloc m with
  | mk r m₁ =>
    rw [hm] at h
    cases r with
    | none =>
      obtain ⟨hfull, rfl⟩ := fsMalloc_none hm
      obtain ⟨-, rfl⟩ := Prod.mk.inj h
      exact ⟨.inl hfull, rfl⟩
    | some j =>
      obtain ⟨hfree, rfl⟩ := fsMalloc_some hm
      cases hf : fsRoot.find? fun f => f.name = name with
      | some f => rw [hf] at h; cases h
      | none =>
        rw [hf] at h
        obtain ⟨-, rfl⟩ := Prod.mk.inj h
        refine ⟨.inr rfl, ?_⟩
        rw [fsFree, Function.update_self, Function.update_idem]
        refine Function.update_eq_self_iff.mpr ?_
        show (⟨(m j).file, false⟩ : FsTable) = m j
        rw [← hfree]

/-- **When a file opens:** a slot is free and the image has a file of the name. -/
theorem fsOpen_isSome_iff : (fsOpen fsRoot m name).1.isSome ↔
    ¬ Full m ∧ (fsRoot.find? fun f => f.name = name).isSome := by
  cases h : fsOpen fsRoot m name with
  | mk r m₁ =>
    cases r with
    | none =>
      refine iff_of_false Bool.false_ne_true ?_
      rintro ⟨hfull, hsome⟩
      rcases (fsOpen_none h).1 with hf | hf
      · exact hfull hf
      · rw [hf] at hsome
        cases hsome
    | some i =>
      obtain ⟨f, hf, hfree, -⟩ := fsOpen_some h
      refine iff_of_true rfl ⟨fun hfull => ?_, by rw [hf]; rfl⟩
      rw [hfull i] at hfree
      cases hfree

end Table

/-! ### Reading -/

/-- A read takes from the front of what is left. -/
theorem fsRead_left (f : FsFile) (h : f.index ≤ f.data.length) (count : ℕ) :
    let r := fsRead f count
    r.2.index ≤ r.2.data.length ∧ r.2.data = f.data ∧
      f.data.drop f.index = r.1.getD [] ++ r.2.data.drop r.2.index ∧
      (r.1 = none ↔ f.data.drop f.index = []) ∧ ((r.1.getD []).length = min (fsBytesLeft f).toNat count) := by
  unfold fsRead fsBytesLeft
  by_cases hend : f.index = f.data.length
  · rw [if_pos hend]
    simp [hend]
  · rw [if_neg hend]
    refine ⟨?_, rfl, ?_, ?_, ?_⟩
    · dsimp only
      omega
    · dsimp only [Option.getD_some]
      rw [← List.drop_drop, List.take_append_drop]
    · refine iff_of_false nofun fun hnil => ?_
      rw [List.drop_eq_nil_iff] at hnil
      omega
    · dsimp only [Option.getD_some]
      rw [List.length_take, List.length_drop]
      omega

end Fs
end Serial2Ethernet
