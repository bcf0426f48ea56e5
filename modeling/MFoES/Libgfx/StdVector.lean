import Mathlib.Algebra.Group.Nat.Defs
import Mathlib.Data.List.Range
import Mathlib.Tactic.Common

/-!
# The freestanding vector

The `std::vector` for the NC5874, over the `malloc` and `realloc` that stand beside it.  An element
is its bytes, as the source copies elements with `memcpy`.  `size_t` has 32 bits there.

The platform answers every request for memory with a block of the size that it was asked for, or
with `NULL`.  Each write is logged with the room that is there (`Write`), and a write behind that
room changes nothing that the model knows of.

`grow` doubles.  What becomes of it (`Grown`) depends on three things: whether the doubling gets
there (`CapacityFor`), whether `realloc` gives something (`Refuses`), and whether the bytes can be
counted in 32 bits (`Fits`).
-/

namespace MFoES.Libgfx.Freestanding

/-- A value as a `size_t`. -/
def sizeT (n : Nat) : Nat := n % 2 ^ 32

theorem sizeT_of_lt {n : Nat} (h : n < 2 ^ 32) : sizeT n = n := Nat.mod_eq_of_lt h

theorem sizeT_lt (n : Nat) : sizeT n < 2 ^ 32 := Nat.mod_lt n (by decide)

theorem sizeT_le (n : Nat) : sizeT n ≤ n := Nat.mod_le n _

/-! ## `malloc` and `realloc` -/

/-- `sizeof(BlockHeader)`. -/
def headerSize : Nat := 8

/-- A block of `malloc`: the size in its header, and the bytes behind the header. -/
structure Block where
  size : Nat
  /-- So many bytes behind the header are there. -/
  room : Nat
  bytes : Nat → UInt8

/-- A write of `len` bytes from `off` on, where there are `room` bytes. -/
structure Write where
  room : Nat
  off : Nat
  len : Nat
  deriving DecidableEq

/-- A write stays inside. -/
def Write.Inside (w : Write) : Prop := w.len = 0 ∨ w.off + w.len ≤ w.room

instance (w : Write) : Decidable w.Inside :=
  inferInstanceAs (Decidable (w.len = 0 ∨ w.off + w.len ≤ w.room))

/-- What `gfx_nc5874_malloc` would answer: `NULL`, or a block with some bytes in it. -/
abbrev Answer := Option (Nat → UInt8)

/-- `malloc`, with what it writes. -/
def malloc (answer : Answer) (n : Nat) : Option Block × List Write :=
  match answer with
  | none => (none, [])
  | some bytes =>
      (some { size := n, room := sizeT (headerSize + n) - headerSize, bytes },
        [⟨sizeT (headerSize + n), 0, 4⟩])

/-- `realloc`, with what it writes. -/
def realloc (answer : Answer) (p : Option Block) (n : Nat) : Option Block × List Write :=
  match p with
  | none => malloc answer n
  | some p =>
      if n ≤ p.size then (some { p with size := n }, [])
      else
        match malloc answer n with
        | (none, written) => (none, written)
        | (some q, written) =>
            (some { q with bytes := fun a => if a < p.size then p.bytes a else q.bytes a },
              written ++ [⟨q.room, 0, p.size⟩])

/-! ## The vector -/

/-- The bytes of an element. -/
abbrev Elem (sizeof : Nat) := Fin sizeof → UInt8

/-- A vector, with the log of its writes. -/
structure Vec where
  data : Option Block := none
  size : Nat := 0
  cap : Nat := 0
  written : List Write := []

namespace Vec

/-- What is there behind `m_data`. -/
def room (v : Vec) : Nat := v.data.elim 0 Block.room

def byte (v : Vec) (a : Nat) : UInt8 := v.data.elim 0 fun b => b.bytes a

/-- A write of `len` bytes from `off` on. -/
def put (off len : Nat) (f : Nat → UInt8) (v : Vec) : Vec :=
  { v with
    data := v.data.map fun b =>
      { b with bytes := fun a => if off ≤ a ∧ a < off + len then f (a - off) else b.bytes a }
    written := v.written ++ [⟨v.room, off, len⟩] }

variable {sizeof : Nat}

/-- `m_data[i]`. -/
def load (v : Vec) (i : Nat) : Elem sizeof := fun j => v.byte (i * sizeof + j)

/-- `m_data[i] = x`. -/
def store (i : Nat) (x : Elem sizeof) (v : Vec) : Vec :=
  v.put (i * sizeof) sizeof fun j => if h : j < sizeof then x ⟨j, h⟩ else 0

/-- From `begin()` to `end()`. -/
def elems (sizeof : Nat) (v : Vec) : List (Elem sizeof) := (List.range v.size).map v.load

/-- `m_size = n`. -/
def setSize (n : Nat) (v : Vec) : Vec := { v with size := n }

def clear (v : Vec) : Vec := v.setSize 0

def reserve (sizeof : Nat) (answer : Answer) (n : Nat) (v : Vec) : Vec :=
  if n ≤ v.cap then v
  else
    match realloc answer v.data (sizeT (n * sizeof)) with
    | (some p, written) => { v with data := some p, cap := n, written := v.written ++ written }
    | (none, written) => { v with written := v.written ++ written }

/-- The loop of `grow`, which ends within 32 turns or not at all (`doubled_eq_some_iff`). -/
def doubled (need : Nat) : Nat → Nat → Option Nat
  | 0, c => if c < need then none else some c
  | fuel + 1, c => if c < need then doubled need fuel (sizeT (c * 2)) else some c

/-- What the doubling begins with. -/
def firstCap (cap : Nat) : Nat := if cap ≠ 0 then sizeT (cap * 2) else 16

/-- `grow`; `none` if it does not return. -/
def grow (sizeof : Nat) (answer : Answer) (need : Nat) (v : Vec) : Option Vec :=
  if need ≤ v.cap then some v
  else (doubled need 32 (firstCap v.cap)).map fun c => v.reserve sizeof answer c

/-- `resize(n)` after `grow`. -/
def resizeGrown (sizeof n : Nat) (v : Vec) : Vec :=
  let t :=
    if v.size < n then v.put (v.size * sizeof) (sizeT ((n - v.size) * sizeof)) fun _ => 0
    else v
  t.setSize (if n ≤ t.cap then n else t.size)

def resize (sizeof : Nat) (answer : Answer) (n : Nat) (v : Vec) : Option Vec :=
  (v.grow sizeof answer n).map (resizeGrown sizeof n)

/-- The loop of `resize(n, v)`. -/
def fill (n : Nat) (x : Elem sizeof) : Nat → Nat → Vec → Vec
  | 0, _, v => v
  | fuel + 1, i, v => if i < n ∧ i < v.cap then fill n x fuel (i + 1) (v.store i x) else v

/-- `resize(n, v)` after `grow`. -/
def resizeWithGrown (n : Nat) (x : Elem sizeof) (v : Vec) : Vec :=
  let t := v.fill n x (n - v.size) v.size
  t.setSize (if n ≤ t.cap then n else t.size)

/-- `resize(n, v)`. -/
def resizeWith (answer : Answer) (n : Nat) (x : Elem sizeof) (v : Vec) : Option Vec :=
  (v.grow sizeof answer n).map (resizeWithGrown n x)

/-- `push_back` after `grow`. -/
def pushBackGrown (x : Elem sizeof) (v : Vec) : Vec :=
  if v.size < v.cap then (v.store v.size x).setSize (sizeT (v.size + 1)) else v

def pushBack (answer : Answer) (x : Elem sizeof) (v : Vec) : Option Vec :=
  (v.grow sizeof answer (sizeT (v.size + 1))).map (pushBackGrown x)

/-- The loop of `insert`. -/
def storeAll : List (Elem sizeof) → Nat → Vec → Vec
  | [], _, v => v
  | x :: xs, k, v => storeAll xs (sizeT (k + 1)) (v.store k x)

/-- `insert` after `grow`; the elements behind `pos` move first. -/
def insertGrown (pos : Nat) (xs : List (Elem sizeof)) (v : Vec) : Vec :=
  let n := sizeT xs.length
  if v.cap < sizeT (v.size + n) then v
  else
    let moved :=
      if pos < v.size then
        v.put ((pos + n) * sizeof) (sizeT ((v.size - pos) * sizeof))
          fun j => v.byte (pos * sizeof + j)
      else v
    (moved.storeAll xs pos).setSize (sizeT (v.size + n))

/-- `insert`, at an index. -/
def insert (answer : Answer) (pos : Nat) (xs : List (Elem sizeof)) (v : Vec) : Option Vec :=
  (v.grow sizeof answer (sizeT (v.size + sizeT xs.length))).map (insertGrown pos xs)

def assign (answer : Answer) (xs : List (Elem sizeof)) (v : Vec) : Option Vec :=
  v.clear.insert answer 0 xs

/-! ## Writes -/

@[simp] theorem setSize_size (n : Nat) (v : Vec) : (v.setSize n).size = n := rfl

@[simp] theorem setSize_cap (n : Nat) (v : Vec) : (v.setSize n).cap = v.cap := rfl

@[simp] theorem setSize_room (n : Nat) (v : Vec) : (v.setSize n).room = v.room := rfl

@[simp] theorem setSize_byte (n : Nat) (v : Vec) (a : Nat) : (v.setSize n).byte a = v.byte a := rfl

@[simp] theorem setSize_load (n : Nat) (v : Vec) (i : Nat) :
    ((v.setSize n).load i : Elem sizeof) = v.load i := rfl

@[simp] theorem put_size (v : Vec) (off len : Nat) (f : Nat → UInt8) :
    (v.put off len f).size = v.size := rfl

@[simp] theorem put_cap (v : Vec) (off len : Nat) (f : Nat → UInt8) :
    (v.put off len f).cap = v.cap := rfl

@[simp] theorem put_room (v : Vec) (off len : Nat) (f : Nat → UInt8) :
    (v.put off len f).room = v.room := by
  rw [room, room, put]
  cases v.data with
  | none => rfl
  | some b => rfl

@[simp] theorem put_isSome (v : Vec) (off len : Nat) (f : Nat → UInt8) :
    (v.put off len f).data.isSome = v.data.isSome := Option.isSome_map

theorem byte_put {v : Vec} (hdata : v.data.isSome) (off len : Nat) (f : Nat → UInt8) (a : Nat) :
    (v.put off len f).byte a = if off ≤ a ∧ a < off + len then f (a - off) else v.byte a := by
  obtain ⟨b, hb⟩ := Option.isSome_iff_exists.mp hdata
  rw [byte, byte, put, hb]
  rfl

/-- What a write does not reach is left. -/
theorem byte_put_outside {v : Vec} {off len a : Nat} (f : Nat → UInt8)
    (h : a < off ∨ off + len ≤ a) : (v.put off len f).byte a = v.byte a := by
  cases hdata : v.data.isSome with
  | true =>
      rw [byte_put hdata, if_neg (by omega)]
  | false =>
      rw [Option.isSome_eq_false_iff, Option.isNone_iff_eq_none] at hdata
      rw [byte, byte, put, hdata]
      rfl

@[simp] theorem store_size (i : Nat) (x : Elem sizeof) (v : Vec) : (v.store i x).size = v.size :=
  rfl

@[simp] theorem store_cap (i : Nat) (x : Elem sizeof) (v : Vec) : (v.store i x).cap = v.cap := rfl

@[simp] theorem store_room (v : Vec) (i : Nat) (x : Elem sizeof) : (v.store i x).room = v.room :=
  put_room _ _ _ _

@[simp] theorem store_isSome (v : Vec) (i : Nat) (x : Elem sizeof) :
    (v.store i x).data.isSome = v.data.isSome := put_isSome _ _ _ _

theorem load_store_self {v : Vec} (hdata : v.data.isSome) (i : Nat) (x : Elem sizeof) :
    (v.store i x).load i = x := by
  funext j
  rw [load, store, byte_put hdata, if_pos ⟨Nat.le_add_right _ _, Nat.add_lt_add_left j.isLt _⟩,
    Nat.add_sub_cancel_left, dif_pos j.isLt]

theorem load_store_ne {v : Vec} {i k : Nat} (x : Elem sizeof) (h : k ≠ i) :
    ((v.store i x).load k : Elem sizeof) = v.load k := by
  funext j
  rw [load, store]
  refine byte_put_outside _ ?_
  have hj := j.isLt
  rcases Nat.lt_or_gt_of_ne h with hlt | hgt
  · have hle : (k + 1) * sizeof ≤ i * sizeof := Nat.mul_le_mul_right _ hlt
    rw [Nat.succ_mul] at hle
    omega
  · have hle : (i + 1) * sizeof ≤ k * sizeof := Nat.mul_le_mul_right _ hgt
    rw [Nat.succ_mul] at hle
    omega

@[simp] theorem storeAll_size (xs : List (Elem sizeof)) (k : Nat) (v : Vec) :
    (v.storeAll xs k).size = v.size := by
  induction xs generalizing k v with
  | nil => rfl
  | cons x xs ih => exact ih _ _

@[simp] theorem storeAll_cap (xs : List (Elem sizeof)) (k : Nat) (v : Vec) :
    (v.storeAll xs k).cap = v.cap := by
  induction xs generalizing k v with
  | nil => rfl
  | cons x xs ih => exact ih _ _

@[simp] theorem storeAll_room (xs : List (Elem sizeof)) (k : Nat) (v : Vec) :
    (v.storeAll xs k).room = v.room := by
  induction xs generalizing k v with
  | nil => rfl
  | cons x xs ih => exact (ih _ _).trans (store_room v k x)

/-- The elements in front of a run of stores, the stored ones, and the ones behind. -/
theorem load_storeAll {xs : List (Elem sizeof)} {k : Nat} {v : Vec} (hdata : v.data.isSome)
    (hfit : k + xs.length < 2 ^ 32) (i : Nat) :
    (v.storeAll xs k).load i =
      if h : k ≤ i ∧ i < k + xs.length then xs.get ⟨i - k, by omega⟩ else v.load i := by
  induction xs generalizing k v with
  | nil =>
      rw [dif_neg (by rw [List.length_nil]; omega)]
      rfl
  | cons x xs ih =>
      rw [List.length_cons] at hfit
      have hk : sizeT (k + 1) = k + 1 := sizeT_of_lt (by omega)
      rw [storeAll, hk, ih (by rwa [store_isSome]) (by omega)]
      rcases Nat.lt_trichotomy i k with hlt | rfl | hgt
      · rw [dif_neg (by omega), dif_neg (by rw [List.length_cons]; omega),
          load_store_ne x (Nat.ne_of_lt hlt)]
      · rw [dif_neg (by omega), dif_pos ⟨Nat.le_refl _, by rw [List.length_cons]; omega⟩,
          load_store_self hdata]
        simp
      · by_cases hin : i < k + 1 + xs.length
        · have hsub : i - k = i - (k + 1) + 1 := by omega
          have hin' : i < k + (x :: xs).length := by rw [List.length_cons]; omega
          rw [dif_pos ⟨hgt, hin⟩, dif_pos ⟨Nat.le_of_lt hgt, hin'⟩]
          simp [hsub]
        · rw [dif_neg (fun h => hin h.2), dif_neg (by rw [List.length_cons]; omega),
            load_store_ne x (Nat.ne_of_gt hgt)]

@[simp] theorem fill_size (n : Nat) (x : Elem sizeof) (fuel i : Nat) (v : Vec) :
    (v.fill n x fuel i).size = v.size := by
  induction fuel generalizing i v with
  | zero => rfl
  | succ fuel ih =>
      rw [fill]
      split
      · exact ih _ _
      · rfl

@[simp] theorem fill_cap (n : Nat) (x : Elem sizeof) (fuel i : Nat) (v : Vec) :
    (v.fill n x fuel i).cap = v.cap := by
  induction fuel generalizing i v with
  | zero => rfl
  | succ fuel ih =>
      rw [fill]
      split
      · exact ih _ _
      · rfl

@[simp] theorem fill_room (n : Nat) (x : Elem sizeof) (fuel i : Nat) (v : Vec) :
    (v.fill n x fuel i).room = v.room := by
  induction fuel generalizing i v with
  | zero => rfl
  | succ fuel ih =>
      rw [fill]
      split
      · exact (ih _ _).trans (store_room v i x)
      · rfl

/-- The loop of `resize(n, v)` stores as often as both bounds allow. -/
theorem fill_eq (n : Nat) (x : Elem sizeof) (fuel i : Nat) (v : Vec) (hcap : v.cap < 2 ^ 32) :
    v.fill n x fuel i = v.storeAll (List.replicate (min fuel (min n v.cap - i)) x) i := by
  induction fuel generalizing i v with
  | zero =>
      rw [Nat.zero_min]
      rfl
  | succ fuel ih =>
      rw [fill]
      split
      · rename_i h
        have hcount : min (fuel + 1) (min n v.cap - i) = min fuel (min n v.cap - (i + 1)) + 1 := by
          omega
        rw [hcount, List.replicate_succ, storeAll, sizeT_of_lt (by omega), ih (i + 1) (v.store i x)
          hcap]
        rfl
      · rename_i h
        have hcount : min (fuel + 1) (min n v.cap - i) = 0 := by omega
        rw [hcount]
        rfl

/-! ## Growth -/

/-- The doubling gets to `c`, which is the first one that is enough. -/
def CapacityFor (cap need c : Nat) : Prop :=
  ∃ k, c = sizeT (firstCap cap * 2 ^ k) ∧ need ≤ c ∧ ∀ j < k, sizeT (firstCap cap * 2 ^ j) < need

/-- `realloc` gives nothing: the platform does not, and the block is too small as it is. -/
def Refuses (sizeof cap : Nat) (answer : Answer) (c : Nat) : Prop :=
  answer = none ∧ (cap = 0 ∨ cap * sizeof < sizeT (c * sizeof))

/-- The bytes of so many elements, and their header, can be counted. -/
def Fits (sizeof c : Nat) : Prop := c * sizeof + headerSize < 2 ^ 32

theorem firstCap_lt (cap : Nat) : firstCap cap < 2 ^ 32 := by
  rw [firstCap]
  split
  · exact sizeT_lt _
  · decide

theorem sizeT_mul_two (c k : Nat) : sizeT (sizeT (c * 2) * 2 ^ k) = sizeT (c * 2 ^ (k + 1)) := by
  rw [Nat.pow_succ', ← Nat.mul_assoc]
  exact Nat.mod_mul_mod _ _ _

theorem sizeT_pow_zero {c : Nat} (hc : c < 2 ^ 32) : sizeT (c * 2 ^ 0) = c := by
  rw [Nat.pow_zero, Nat.mul_one, sizeT_of_lt hc]

/-- Nothing is doubled where the capacity is enough. -/
theorem undoubled_eq_some {need fuel c d : Nat} (hc : c < 2 ^ 32) (hneed : ¬ c < need) :
    some c = some d ↔
      ∃ k ≤ fuel, d = sizeT (c * 2 ^ k) ∧ need ≤ d ∧ ∀ j < k, sizeT (c * 2 ^ j) < need := by
  constructor
  · intro h
    cases h
    exact ⟨0, Nat.zero_le _, (sizeT_pow_zero hc).symm, Nat.le_of_not_lt hneed,
      fun j hj => absurd hj (Nat.not_lt_zero j)⟩
  · rintro ⟨k, -, rfl, -, hbefore⟩
    cases k with
    | zero => rw [sizeT_pow_zero hc]
    | succ k =>
        have hlt := hbefore 0 (Nat.succ_pos k)
        rw [sizeT_pow_zero hc] at hlt
        exact absurd hlt hneed

theorem doubled_eq_some {need fuel c d : Nat} (hc : c < 2 ^ 32) :
    doubled need fuel c = some d ↔
      ∃ k ≤ fuel, d = sizeT (c * 2 ^ k) ∧ need ≤ d ∧ ∀ j < k, sizeT (c * 2 ^ j) < need := by
  induction fuel generalizing c with
  | zero =>
      rw [doubled]
      split
      · rename_i hlt
        refine iff_of_false (fun h => by cases h) ?_
        rintro ⟨k, hk, rfl, hneed, -⟩
        rw [Nat.le_zero.mp hk, sizeT_pow_zero hc] at hneed
        omega
      · rename_i hneed
        exact undoubled_eq_some hc hneed
  | succ fuel ih =>
      rw [doubled]
      split
      · rename_i hlt
        rw [ih (sizeT_lt (c * 2))]
        simp only [sizeT_mul_two]
        constructor
        · rintro ⟨k, hk, hd, hneed, hbefore⟩
          refine ⟨k + 1, Nat.succ_le_succ hk, hd, hneed, fun j hj => ?_⟩
          cases j with
          | zero => rwa [sizeT_pow_zero hc]
          | succ j => exact hbefore j (Nat.lt_of_succ_lt_succ hj)
        · rintro ⟨k, hk, hd, hneed, hbefore⟩
          cases k with
          | zero =>
              rw [sizeT_pow_zero hc] at hd
              omega
          | succ k =>
              exact ⟨k, Nat.le_of_succ_le_succ hk, hd, hneed,
                fun j hj => hbefore (j + 1) (Nat.succ_lt_succ hj)⟩
      · rename_i hneed
        exact undoubled_eq_some hc hneed

/-- 32 turns are enough for all, as what is doubled so often is 0. -/
theorem doubled_eq_some_iff {cap need c : Nat} (hneed : cap < need) :
    doubled need 32 (firstCap cap) = some c ↔ CapacityFor cap need c := by
  rw [doubled_eq_some (firstCap_lt cap), CapacityFor]
  constructor
  · rintro ⟨k, -, h⟩
    exact ⟨k, h⟩
  · rintro ⟨k, hc, hle, hbefore⟩
    refine ⟨k, Nat.le_of_not_lt fun hk => ?_, hc, hle, hbefore⟩
    obtain ⟨m, rfl⟩ := Nat.exists_eq_add_of_lt hk
    have hzero : sizeT (firstCap cap * 2 ^ (32 + m + 1)) = 0 := by
      refine Nat.mod_eq_zero_of_dvd (Nat.dvd_mul_left_of_dvd ?_ _)
      exact Nat.pow_dvd_pow 2 (by omega)
    omega

/-- The block of a vector is just large enough for its capacity. -/
structure Valid (sizeof : Nat) (v : Vec) : Prop where
  size_le : v.size ≤ v.cap
  cap_lt : v.cap < 2 ^ 32
  fits : Fits sizeof v.cap
  data : v.data.elim (v.cap = 0) fun b =>
    0 < v.cap ∧ b.size = v.cap * sizeof ∧ b.room = v.cap * sizeof
  inside : ∀ w ∈ v.written, w.Inside

namespace Valid

variable {v : Vec}

theorem cap_eq_zero (h : v.Valid sizeof) (hdata : v.data = none) : v.cap = 0 := by
  have hblock := h.data
  rw [hdata] at hblock
  exact hblock

theorem block (h : v.Valid sizeof) {b : Block} (hdata : v.data = some b) :
    0 < v.cap ∧ b.size = v.cap * sizeof ∧ b.room = v.cap * sizeof := by
  have hblock := h.data
  rw [hdata] at hblock
  exact hblock

theorem isSome (h : v.Valid sizeof) (hcap : 0 < v.cap) : v.data.isSome := by
  cases hdata : v.data with
  | none => exact absurd (h.cap_eq_zero hdata) (Nat.ne_of_gt hcap)
  | some b => rfl

theorem room_eq (h : v.Valid sizeof) : v.room = v.cap * sizeof := by
  cases hdata : v.data with
  | none =>
      rw [h.cap_eq_zero hdata, Nat.zero_mul, room, hdata]
      rfl
  | some b =>
      rw [room, hdata]
      exact (h.block hdata).2.2

/-- Another size is as good. -/
theorem setSize (h : v.Valid sizeof) {n : Nat} (hn : n ≤ v.cap) :
    (v.setSize n).Valid sizeof :=
  ⟨hn, h.cap_lt, h.fits, h.data, h.inside⟩

theorem put (h : v.Valid sizeof) {off len : Nat} (f : Nat → UInt8)
    (hin : len = 0 ∨ off + len ≤ v.cap * sizeof) : (v.put off len f).Valid sizeof where
  size_le := h.size_le
  cap_lt := h.cap_lt
  fits := h.fits
  data := by
    cases hdata : v.data with
    | none =>
        rw [Vec.put, hdata]
        exact h.cap_eq_zero hdata
    | some b =>
        obtain ⟨hcap, hsize, hroom⟩ := h.block hdata
        rw [Vec.put, hdata]
        exact ⟨hcap, hsize, hroom⟩
  inside w hw := by
    rcases List.mem_append.mp hw with hold | hnew
    · exact h.inside w hold
    · cases List.mem_singleton.mp hnew
      rw [Write.Inside, h.room_eq]
      exact hin

theorem storeAll (h : v.Valid sizeof) {xs : List (Elem sizeof)} {k : Nat}
    (hfit : k + xs.length ≤ v.cap) : (v.storeAll xs k).Valid sizeof := by
  induction xs generalizing k v with
  | nil => exact h
  | cons x xs ih =>
      rw [List.length_cons] at hfit
      have hcap := h.cap_lt
      rw [Vec.storeAll, sizeT_of_lt (by omega)]
      refine ih (h.put _ (.inr ?_)) (by rw [put_cap]; omega)
      rw [← Nat.succ_mul]
      exact Nat.mul_le_mul_right sizeof (by omega)

theorem load_storeAll (h : v.Valid sizeof) {xs : List (Elem sizeof)} {k : Nat}
    (hfit : k + xs.length ≤ v.cap) (i : Nat) :
    (v.storeAll xs k).load i =
      if h : k ≤ i ∧ i < k + xs.length then xs.get ⟨i - k, by omega⟩ else v.load i := by
  cases hxs : xs with
  | nil =>
      rw [dif_neg (by rw [List.length_nil]; omega)]
      rfl
  | cons x xs =>
      rw [hxs, List.length_cons] at hfit
      have hcap := h.cap_lt
      exact Vec.load_storeAll (h.isSome (by omega)) (by rw [List.length_cons]; omega) i

end Valid

/-! ### What `reserve` does where it has to grow -/

theorem elems_congr {u v : Vec} (hsize : u.size = v.size)
    (hbyte : ∀ a < v.size * sizeof, u.byte a = v.byte a) : u.elems sizeof = v.elems sizeof := by
  rw [elems, elems, hsize]
  refine List.map_congr_left fun i hi => funext fun j => hbyte _ ?_
  have hle : (i + 1) * sizeof ≤ v.size * sizeof :=
    Nat.mul_le_mul_right sizeof (List.mem_range.mp hi)
  have hj := j.isLt
  rw [Nat.succ_mul] at hle
  omega

theorem elems_of_size_eq_zero {v : Vec} (h : v.size = 0) : v.elems sizeof = [] := by
  rw [elems, h]
  rfl

/-- A block that is too small is copied to a new one. -/
theorem realloc_moves {p : Block} {n : Nat} (bytes : Nat → UInt8) (h : ¬ n ≤ p.size) :
    realloc (some bytes) (some p) n =
      (some {
        size := n, room := sizeT (headerSize + n) - headerSize
        bytes := fun a => if a < p.size then p.bytes a else bytes a },
        [⟨sizeT (headerSize + n), 0, 4⟩, ⟨sizeT (headerSize + n) - headerSize, 0, p.size⟩]) := by
  rw [realloc, if_neg h]
  rfl

theorem realloc_refused {v : Vec} {answer : Answer} {c : Nat} (h : v.Valid sizeof)
    (hr : Refuses sizeof v.cap answer c) :
    realloc answer v.data (sizeT (c * sizeof)) = (none, []) := by
  obtain ⟨rfl, hsmall⟩ := hr
  cases hdata : v.data with
  | none => rfl
  | some b =>
      obtain ⟨hcap, hsize, -⟩ := h.block hdata
      rw [realloc, if_neg (by omega)]
      rfl

theorem reserve_refused {v : Vec} {answer : Answer} {c : Nat} (h : v.Valid sizeof)
    (hr : Refuses sizeof v.cap answer c) : v.reserve sizeof answer c = v := by
  rw [reserve, realloc_refused h hr]
  split
  · rfl
  · simp only [List.append_nil]

/-- The bytes of what fits are counted right. -/
theorem Fits.sizeT_eq {c : Nat} (h : Fits sizeof c) :
    sizeT (c * sizeof) = c * sizeof ∧
      sizeT (headerSize + c * sizeof) = headerSize + c * sizeof := by
  rw [Fits] at h
  exact ⟨sizeT_of_lt (by omega), sizeT_of_lt (by omega)⟩

/-- Where `realloc` gives something, that is a block with the old bytes in front. -/
theorem realloc_some {v : Vec} {answer : Answer} {c : Nat} (h : v.Valid sizeof)
    (hr : ¬ Refuses sizeof v.cap answer c) :
    ∃ b written, realloc answer v.data (sizeT (c * sizeof)) = (some b, written) ∧
      b.size = sizeT (c * sizeof) ∧
      (b.room = sizeT (headerSize + sizeT (c * sizeof)) - headerSize ∨
        sizeT (c * sizeof) ≤ v.cap * sizeof ∧ b.room = v.cap * sizeof) ∧
      (∀ a < v.size * sizeof, b.bytes a = v.byte a) ∧
      (Fits sizeof c → v.cap ≤ c → ∀ w ∈ written, w.Inside) := by
  have hsize : v.size * sizeof ≤ v.cap * sizeof := Nat.mul_le_mul_right sizeof h.size_le
  have hheader (hf : Fits sizeof c) :
      Write.Inside ⟨sizeT (headerSize + sizeT (c * sizeof)), 0, 4⟩ := by
    rw [hf.sizeT_eq.1, hf.sizeT_eq.2]
    exact .inr (Nat.le_trans (by decide : 4 ≤ headerSize) (Nat.le_add_right _ _))
  cases hdata : v.data with
  | none =>
      have hcap := h.cap_eq_zero hdata
      obtain ⟨bytes, rfl⟩ : ∃ bytes, answer = some bytes :=
        Option.ne_none_iff_exists'.mp fun ha => hr ⟨ha, .inl hcap⟩
      refine ⟨_, _, rfl, rfl, .inl rfl, fun a ha => ?_, fun hf _ w hw => ?_⟩
      · rw [hcap, Nat.zero_mul] at hsize
        omega
      · cases List.mem_singleton.mp hw
        exact hheader hf
  | some b =>
      obtain ⟨hcap, hb, hroom⟩ := h.block hdata
      have hbyte (a : Nat) : b.bytes a = v.byte a := by rw [byte, hdata]; rfl
      by_cases hle : sizeT (c * sizeof) ≤ b.size
      · refine ⟨{ b with size := sizeT (c * sizeof) }, [], ?_, rfl, .inr ⟨?_, hroom⟩,
          fun a _ => hbyte a, fun _ _ w hw => absurd hw List.not_mem_nil⟩
        · rw [realloc, if_pos hle]
        · rwa [hb] at hle
      · obtain ⟨bytes, rfl⟩ : ∃ bytes, answer = some bytes :=
          Option.ne_none_iff_exists'.mp fun ha => hr ⟨ha, .inr (by omega)⟩
        refine ⟨_, _, realloc_moves bytes hle, rfl, .inl rfl, fun a ha => ?_, fun hf hc w hw => ?_⟩
        · exact (if_pos (show a < b.size by omega)).trans (hbyte a)
        · rcases List.mem_cons.mp hw with rfl | hw
          · exact hheader hf
          · cases List.mem_singleton.mp hw
            have hmul : v.cap * sizeof ≤ c * sizeof := Nat.mul_le_mul_right sizeof hc
            rw [hf.sizeT_eq.1, hf.sizeT_eq.2, Nat.add_sub_cancel_left]
            exact .inr (by rw [Nat.zero_add, hb]; exact hmul)

/-- Where it gives something, the bytes of which can be counted, the vector has the capacity. -/
theorem reserve_fits {v : Vec} {answer : Answer} {c : Nat} (h : v.Valid sizeof) (hc : v.cap < c)
    (hlt : c < 2 ^ 32) (hr : ¬ Refuses sizeof v.cap answer c) (hf : Fits sizeof c) :
    (v.reserve sizeof answer c).Valid sizeof ∧ (v.reserve sizeof answer c).cap = c ∧
      (v.reserve sizeof answer c).size = v.size ∧
      (v.reserve sizeof answer c).elems sizeof = v.elems sizeof := by
  obtain ⟨b, written, hrealloc, hsize, hroom, hbytes, hwritten⟩ := realloc_some h hr
  have hmul : v.cap * sizeof ≤ c * sizeof := Nat.mul_le_mul_right sizeof (Nat.le_of_lt hc)
  rw [hf.sizeT_eq.1] at hsize hroom
  rw [hf.sizeT_eq.2, Nat.add_sub_cancel_left] at hroom
  rw [reserve, if_neg (Nat.not_le_of_lt hc), hrealloc]
  refine ⟨⟨?_, hlt, hf, ⟨?_, hsize, ?_⟩, fun w hw => ?_⟩, rfl, rfl, elems_congr rfl hbytes⟩
  · exact Nat.le_trans h.size_le (Nat.le_of_lt hc)
  · exact Nat.zero_lt_of_lt hc
  · show b.room = c * sizeof
    omega
  · rcases List.mem_append.mp hw with hold | hnew
    · exact h.inside w hold
    · exact hwritten hf (Nat.le_of_lt hc) w hnew

/-- Where the bytes cannot be counted, the capacity is not there. -/
theorem reserve_unbacked {v : Vec} {answer : Answer} {c : Nat} (h : v.Valid sizeof)
    (hc : v.cap < c) (hr : ¬ Refuses sizeof v.cap answer c) (hf : ¬ Fits sizeof c) :
    (v.reserve sizeof answer c).cap = c ∧ (v.reserve sizeof answer c).room < c * sizeof := by
  obtain ⟨b, written, hrealloc, -, hroom, -⟩ := realloc_some h hr
  have hcap : v.cap * sizeof + headerSize < 2 ^ 32 := h.fits
  have hlt := sizeT_lt (headerSize + sizeT (c * sizeof))
  rw [Fits] at hf
  rw [headerSize] at hf hroom hcap hlt
  rw [reserve, if_neg (Nat.not_le_of_lt hc), hrealloc]
  refine ⟨rfl, ?_⟩
  show b.room < c * sizeof
  omega

end Vec

end MFoES.Libgfx.Freestanding
