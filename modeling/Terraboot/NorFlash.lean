import Mathlib.Data.List.Basic
import Mathlib.Data.List.GetD
import Mathlib.Tactic.Common

/-!
# NOR Flash

A byte-addressed NOR flash: erasing a range sets its bytes to `0xFF`, programming a range
replaces each byte by the conjunction of its old content and the data, so it can only
clear bits. The device keeps the list of the operations it was given, which is what
confinement statements are about: programming data that is already there leaves no trace
in the content.

## Main results

* `programMem_eq_write_iff`: programming stores the data exactly where the old content
  has no cleared bit that the data needs set; in particular on blank flash
  (`programMem_of_blank`).
* `read_write`, `read_write_of_disjoint`, `write_self`: the read-over-write laws.
* `Within.erase`, `Within.program`: how an operation extends a confined log.
-/

namespace NorFlash

/-- The content of the flash, by address. -/
abbrev Mem := ℕ → BitVec 8

/-- An operation given to the flash hardware. -/
inductive Op
  | erase (addr size : ℕ)
  | program (addr : ℕ) (data : List (BitVec 8))
  deriving DecidableEq, Repr

/-- A flash device: its content and the operations it has performed, oldest first. -/
structure Flash where
  mem : Mem
  log : List Op

/-- The byte at `x` lies in the `n` bytes from `a` on. -/
def InRange (a n x : ℕ) : Prop := a ≤ x ∧ x < a + n

instance (a n x : ℕ) : Decidable (InRange a n x) := inferInstanceAs (Decidable (_ ∧ _))

/-- The content of `n` bytes from `a` on. -/
def read (m : Mem) (a n : ℕ) : List (BitVec 8) := (List.range n).map fun i => m (a + i)

/-- Storing `d` at `a` without regard to the old content. -/
def write (m : Mem) (a : ℕ) (d : List (BitVec 8)) : Mem :=
  fun x => if InRange a d.length x then d.getD (x - a) 0 else m x

/-- Erasing `n` bytes from `a` on. -/
def eraseMem (m : Mem) (a n : ℕ) : Mem := fun x => if InRange a n x then 0xFF else m x

/-- Programming `d` at `a`. -/
def programMem (m : Mem) (a : ℕ) (d : List (BitVec 8)) : Mem :=
  fun x => if InRange a d.length x then m x &&& d.getD (x - a) 0 else m x

/-- The `n` bytes from `a` on are blank. -/
def Blank (m : Mem) (a n : ℕ) : Prop := ∀ x, InRange a n x → m x = 0xFF

instance (m : Mem) (a n : ℕ) : Decidable (Blank m a n) :=
  decidable_of_iff (∀ i < n, m (a + i) = 0xFF)
    ⟨fun h x hx => by
      have := h (x - a) (by obtain ⟨_, _⟩ := hx; omega)
      rwa [Nat.add_sub_cancel' hx.1] at this,
    fun h i hi => h (a + i) ⟨by omega, by omega⟩⟩

/-- The device performs an erase. -/
def Flash.erase (f : Flash) (a n : ℕ) : Flash :=
  ⟨eraseMem f.mem a n, f.log ++ [.erase a n]⟩

/-- The device performs a program operation. -/
def Flash.program (f : Flash) (a : ℕ) (d : List (BitVec 8)) : Flash :=
  ⟨programMem f.mem a d, f.log ++ [.program a d]⟩

@[simp] theorem Flash.erase_mem (f : Flash) (a n : ℕ) :
    (f.erase a n).mem = eraseMem f.mem a n := rfl

@[simp] theorem Flash.erase_log (f : Flash) (a n : ℕ) :
    (f.erase a n).log = f.log ++ [.erase a n] := rfl

@[simp] theorem Flash.program_mem (f : Flash) (a : ℕ) (d : List (BitVec 8)) :
    (f.program a d).mem = programMem f.mem a d := rfl

@[simp] theorem Flash.program_log (f : Flash) (a : ℕ) (d : List (BitVec 8)) :
    (f.program a d).log = f.log ++ [.program a d] := rfl

/-! ### Reading -/

@[simp] theorem read_length (m : Mem) (a n : ℕ) : (read m a n).length = n := by
  simp [read]

theorem read_getD (m : Mem) (a : ℕ) {n i : ℕ} (h : i < n) : (read m a n).getD i 0 = m (a + i) := by
  simp [read, List.getD_eq_getElem?_getD, h]

/-- Two ranges read the same exactly when they agree byte by byte. -/
theorem read_eq_read_iff (m m' : Mem) (a a' n : ℕ) :
    read m a n = read m' a' n ↔ ∀ i < n, m (a + i) = m' (a' + i) := by
  constructor
  · intro h i hi
    have := congrArg (fun l => l.getD i 0) h
    simpa only [read_getD m a hi, read_getD m' a' hi] using this
  · intro h
    refine List.map_congr_left fun i hi => h i (List.mem_range.mp hi)

/-- Two adjacent ranges are read as one. -/
theorem read_add (m : Mem) (a n k : ℕ) : read m a (n + k) = read m a n ++ read m (a + n) k := by
  rw [read, read, read, List.range_add, List.map_append, List.map_map]
  congr 1
  refine List.map_congr_left fun i _ => ?_
  rw [Function.comp_apply, Nat.add_assoc]

theorem read_congr {m m' : Mem} {a n : ℕ} (h : ∀ x, InRange a n x → m x = m' x) :
    read m a n = read m' a n :=
  (read_eq_read_iff m m' a a n).mpr fun i hi => h (a + i) ⟨by omega, by omega⟩

theorem eq_read_iff (m : Mem) (a : ℕ) (d : List (BitVec 8)) :
    d = read m a d.length ↔ ∀ i < d.length, m (a + i) = d.getD i 0 := by
  constructor
  · intro h i hi
    rw [← read_getD m a hi, ← h]
  · intro h
    refine List.ext_getElem (by simp) fun i hi _ => ?_
    have := h i hi
    rw [List.getD_eq_getElem?_getD, List.getElem?_eq_getElem hi, Option.getD_some] at this
    simp [read, this]

/-- A byte string that agrees with the flash at every index. -/
theorem eq_read_of_getD_eq {m : Mem} {a n : ℕ} {d : List (BitVec 8)} (hlen : d.length = n)
    (h : ∀ i < n, d.getD i 0 = m (a + i)) : d = read m a n := by
  subst hlen
  rw [eq_read_iff]
  exact fun i hi => (h i hi).symm

/-! ### Writing -/

theorem write_of_mem (m : Mem) {a x : ℕ} {d : List (BitVec 8)} (h : InRange a d.length x) :
    write m a d x = d.getD (x - a) 0 := if_pos h

theorem write_of_not_mem (m : Mem) {a x : ℕ} {d : List (BitVec 8)}
    (h : ¬InRange a d.length x) : write m a d x = m x := if_neg h

/-- Reading back what was written. -/
theorem read_write (m : Mem) (a : ℕ) (d : List (BitVec 8)) :
    read (write m a d) a d.length = d := by
  symm
  rw [eq_read_iff]
  intro i hi
  rw [write_of_mem m ⟨by omega, by omega⟩, Nat.add_sub_cancel_left]

/-- Reading back a part of what was written. -/
theorem read_write_part (m : Mem) {a i n : ℕ} {d : List (BitVec 8)} (h : i + n ≤ d.length) :
    read (write m a d) (a + i) n = (d.drop i).take n := by
  have hlen : ((d.drop i).take n).length = n := by
    rw [List.length_take, List.length_drop]
    omega
  have hpart : (d.drop i).take n = read (write m a d) (a + i) ((d.drop i).take n).length := by
    rw [eq_read_iff]
    intro j hj
    rw [write_of_mem m ⟨by omega, by omega⟩, List.getD_eq_getElem?_getD,
      List.getD_eq_getElem?_getD, List.getElem?_take_of_lt (by omega), List.getElem?_drop,
      show a + i + j - a = i + j by omega]
  rw [hpart, hlen]

/-- A write does not affect a range that does not meet it. -/
theorem read_write_of_disjoint (m : Mem) {a b n : ℕ} {d : List (BitVec 8)}
    (h : b + n ≤ a ∨ a + d.length ≤ b) : read (write m a d) b n = read m b n := by
  rw [read_eq_read_iff]
  intro i hi
  refine write_of_not_mem m ?_
  rintro ⟨h₁, h₂⟩
  omega

/-- Writing what is already there changes nothing. -/
theorem write_self (m : Mem) (a : ℕ) {d : List (BitVec 8)} (h : d = read m a d.length) :
    write m a d = m := by
  funext x
  by_cases hx : InRange a d.length x
  · rw [write_of_mem m hx, ← (eq_read_iff m a d).mp h (x - a) (by obtain ⟨_, _⟩ := hx; omega)]
    congr 1
    obtain ⟨_, _⟩ := hx
    omega
  · rw [write_of_not_mem m hx]

theorem write_write (m : Mem) (a : ℕ) (d : List (BitVec 8)) :
    write (write m a d) a d = write m a d :=
  write_self _ a (read_write m a d).symm

theorem write_nil (m : Mem) (a : ℕ) : write m a [] = m := write_self m a rfl

/-- Two pieces written one behind the other. -/
theorem write_append (m : Mem) (a : ℕ) (d d' : List (BitVec 8)) :
    write m a (d ++ d') = write (write m a d) (a + d.length) d' := by
  have hlen : (d ++ d').length = d.length + d'.length := List.length_append
  funext x
  by_cases hlast : InRange (a + d.length) d'.length x
  · obtain ⟨hlo, hhi⟩ := hlast
    rw [write_of_mem _ ⟨by omega, by omega⟩, write_of_mem _ ⟨hlo, hhi⟩,
      List.getD_append_right _ _ _ _ (by omega), Nat.sub_sub]
  rw [write_of_not_mem _ hlast]
  by_cases hfirst : InRange a d.length x
  · obtain ⟨hlo, hhi⟩ := hfirst
    rw [write_of_mem _ ⟨hlo, by omega⟩, write_of_mem _ ⟨hlo, hhi⟩,
      List.getD_append _ _ _ _ (by omega)]
  · rw [write_of_not_mem _ hfirst, write_of_not_mem]
    rintro ⟨hlo, hhi⟩
    by_cases hx : x < a + d.length
    · exact hfirst ⟨hlo, hx⟩
    · exact hlast ⟨by omega, by omega⟩

/-! ### Programming and erasing -/

/-- A programmed byte. -/
theorem programMem_add (m : Mem) (a : ℕ) {d : List (BitVec 8)} {i : ℕ} (hi : i < d.length) :
    programMem m a d (a + i) = m (a + i) &&& d.getD i 0 := by
  rw [programMem, if_pos ⟨by omega, by omega⟩, Nat.add_sub_cancel_left]

/-- Programming stores the data exactly where no bit that is already cleared would have
to be set. -/
theorem programMem_eq_write_iff (m : Mem) (a : ℕ) (d : List (BitVec 8)) :
    programMem m a d = write m a d ↔ ∀ i < d.length, m (a + i) &&& d.getD i 0 = d.getD i 0 := by
  constructor
  · intro h i hi
    have hx : InRange a d.length (a + i) := ⟨by omega, by omega⟩
    have := congrFun h (a + i)
    rwa [programMem, if_pos hx, write_of_mem m hx, Nat.add_sub_cancel_left] at this
  · intro h
    funext x
    by_cases hx : InRange a d.length x
    · rw [programMem, if_pos hx, write_of_mem m hx]
      have hx' := hx
      obtain ⟨_, _⟩ := hx'
      have := h (x - a) (by omega)
      rwa [Nat.add_sub_cancel' (by omega)] at this
    · rw [programMem, if_neg hx, write_of_not_mem m hx]

/-- The data reads back after programming exactly when programming stored it. -/
theorem read_programMem_iff (m : Mem) (a : ℕ) (d : List (BitVec 8)) :
    d = read (programMem m a d) a d.length ↔ programMem m a d = write m a d := by
  rw [programMem_eq_write_iff, eq_read_iff]
  refine forall_congr' fun i => imp_congr_right fun hi => ?_
  rw [programMem_add m a hi]

/-- Data that programs the same, byte by byte. -/
theorem programMem_eq_iff {m : Mem} {a n : ℕ} {d d' : List (BitVec 8)} (hd : d.length = n)
    (hd' : d'.length = n) :
    programMem m a d = programMem m a d' ↔
      ∀ i < n, m (a + i) &&& d.getD i 0 = m (a + i) &&& d'.getD i 0 := by
  constructor
  · intro h i hi
    have hx := congrFun h (a + i)
    rwa [programMem_add m a (by omega), programMem_add m a (by omega)] at hx
  · intro h
    funext x
    rw [programMem, programMem, hd, hd']
    split_ifs with hx
    · have hbyte := h (x - a) (by obtain ⟨_, _⟩ := hx; omega)
      rwa [Nat.add_sub_cancel' hx.1] at hbyte
    · rfl

theorem Blank.mono {m : Mem} {a n b k : ℕ} (h : Blank m a n) (hb : a ≤ b)
    (hk : b + k ≤ a + n) : Blank m b k := by
  rintro x ⟨h₁, h₂⟩
  exact h x ⟨by omega, by omega⟩

theorem blank_congr {m m' : Mem} {a n : ℕ} (h : ∀ x, InRange a n x → m x = m' x) :
    Blank m a n ↔ Blank m' a n :=
  forall_congr' fun x => imp_congr_right fun hx => by rw [h x hx]

theorem blank_eraseMem (m : Mem) (a n : ℕ) : Blank (eraseMem m a n) a n :=
  fun _ hx => if_pos hx

theorem allOnes_and (d : BitVec 8) : (0xFF : BitVec 8) &&& d = d :=
  BitVec.allOnes_and

/-- Programming blank flash stores the data. -/
theorem programMem_of_blank {m : Mem} {a : ℕ} {d : List (BitVec 8)}
    (h : Blank m a d.length) : programMem m a d = write m a d := by
  rw [programMem_eq_write_iff]
  intro i hi
  rw [h (a + i) ⟨by omega, by omega⟩, allOnes_and]

/-- Programming data over itself stores it. -/
theorem programMem_of_eq {m : Mem} {a : ℕ} {d : List (BitVec 8)}
    (h : d = read m a d.length) : programMem m a d = write m a d := by
  rw [programMem_eq_write_iff]
  intro i hi
  rw [(eq_read_iff m a d).mp h i hi, BitVec.and_self]

/-! ### Confinement -/

/-- The bytes an operation erases or programs. -/
def Op.Touches : Op → ℕ → Prop
  | .erase a n, x => InRange a n x
  | .program a d, x => InRange a d.length x

/-- Every operation performed stays within `[lo, hi)`. -/
def Within (lo hi : ℕ) (log : List Op) : Prop :=
  ∀ op ∈ log, ∀ x, op.Touches x → lo ≤ x ∧ x < hi

theorem within_nil (lo hi : ℕ) : Within lo hi [] := fun _ h => absurd h List.not_mem_nil

theorem Within.erase {lo hi a n : ℕ} {f : Flash} (h : Within lo hi f.log) (hlo : lo ≤ a)
    (hhi : a + n ≤ hi) : Within lo hi (f.erase a n).log := by
  intro op hop x hx
  rw [Flash.erase_log, List.mem_append, List.mem_singleton] at hop
  rcases hop with hop | rfl
  · exact h op hop x hx
  · obtain ⟨h₁, h₂⟩ := hx
    exact ⟨by omega, by omega⟩

theorem Within.program {lo hi a : ℕ} {d : List (BitVec 8)} {f : Flash}
    (h : Within lo hi f.log) (hlo : lo ≤ a) (hhi : a + d.length ≤ hi) :
    Within lo hi (f.program a d).log := by
  intro op hop x hx
  rw [Flash.program_log, List.mem_append, List.mem_singleton] at hop
  rcases hop with hop | rfl
  · exact h op hop x hx
  · obtain ⟨h₁, h₂⟩ := hx
    exact ⟨by omega, by omega⟩

end NorFlash
