import Mathlib.Data.Int.ModEq
import Mathlib.Data.List.Range
import Mathlib.Logic.Function.Basic
import Mathlib.Tactic.Common

/-!
# The audio ring of the south bridge

`RingBuffer` has a power of two of slots.  One slot stays empty, so that the head stands on the
tail only when nothing is queued.  What is queued is `contents`: `push` appends to it or does
nothing, `push_overwrite` takes the oldest item out first where the ring is full, and `pop`
takes the oldest item.
-/

namespace MFoES.Southbridge

variable {k : Nat} {α : Type}

/-! ## Indices -/

/-- The slot of the `n`-th item. -/
def slot (n : Nat) : Fin (2 ^ k) := ⟨n % 2 ^ k, Nat.mod_lt n (Nat.two_pow_pos k)⟩

/-- `(i + 1) & mask_`. -/
def next (i : Fin (2 ^ k)) : Fin (2 ^ k) :=
  ⟨(i.val + 1) &&& (2 ^ k - 1), Nat.and_lt_two_pow _ (Nat.sub_one_lt (Nat.two_pow_pos k).ne')⟩

@[simp] theorem next_slot (n : Nat) : next (slot n : Fin (2 ^ k)) = slot (n + 1) := by
  refine Fin.ext ?_
  show (n % 2 ^ k + 1) &&& (2 ^ k - 1) = (n + 1) % 2 ^ k
  rw [Nat.and_two_pow_sub_one_eq_mod, Nat.mod_add_mod]

@[simp] theorem slot_val (i : Fin (2 ^ k)) : slot i.val = i :=
  Fin.ext (Nat.mod_eq_of_lt i.isLt)

theorem slot_add (n : Nat) : (slot (n + 2 ^ k) : Fin (2 ^ k)) = slot n :=
  Fin.ext (Nat.add_mod_right n (2 ^ k))

/-- Within one turn, a slot is of one item. -/
theorem slot_inj {m n : Nat} (h : (slot m : Fin (2 ^ k)) = slot n) (hle : m ≤ n)
    (hlt : n < m + 2 ^ k) : m = n := by
  have hmod : m % 2 ^ k = n % 2 ^ k := congrArg Fin.val h
  have hdvd : 2 ^ k ∣ n - m := (Nat.modEq_iff_dvd' hle).mp hmod
  rcases Nat.eq_zero_or_pos (n - m) with hzero | hpos
  · omega
  · have hbound := Nat.le_of_dvd hpos hdvd
    omega

theorem slot_ne {m n : Nat} (hlt : m < n) (hbound : n < m + 2 ^ k) :
    (slot m : Fin (2 ^ k)) ≠ slot n := fun h =>
  Nat.ne_of_lt hlt (slot_inj h (Nat.le_of_lt hlt) hbound)

/-! ## The ring -/

/-- `RingBuffer`, of capacity `2 ^ k`. -/
structure RingBuffer (k : Nat) (α : Type) where
  buf : Fin (2 ^ k) → α
  head : Fin (2 ^ k)
  tail : Fin (2 ^ k)

namespace RingBuffer

/-- The constructor, on the memory that `make_unique` made. -/
def init (buf : Fin (2 ^ k) → α) : RingBuffer k α := ⟨buf, slot 0, slot 0⟩

/-- `push`; `none` when the ring is full. -/
def push (r : RingBuffer k α) (item : α) : Option (RingBuffer k α) :=
  if next r.head = r.tail then none
  else some { r with buf := Function.update r.buf r.head item, head := next r.head }

/-- `push_overwrite`. -/
def pushOverwrite (r : RingBuffer k α) (item : α) : RingBuffer k α :=
  { buf := Function.update r.buf r.head item
    head := next r.head
    tail := if next r.head = r.tail then next r.tail else r.tail }

/-- `pop`; `none` when the ring is empty. -/
def pop (r : RingBuffer k α) : Option (α × RingBuffer k α) :=
  if r.tail = r.head then none else some (r.buf r.tail, { r with tail := next r.tail })

/-- `size()`. -/
def size (r : RingBuffer k α) : Nat := (r.head.val + 2 ^ k - r.tail.val) &&& (2 ^ k - 1)

/-- `fill_pct()`. -/
def fillPct (r : RingBuffer k α) : Float :=
  Float.ofNat r.size / Float.ofNat (2 ^ k - 1) * 100

/-- The items from the tail on. -/
def items (buf : Fin (2 ^ k) → α) (tail n : Nat) : List α :=
  (List.range' tail n).map fun i => buf (slot i)

/-- What is queued, the oldest item first. -/
def contents (r : RingBuffer k α) : List α := items r.buf r.tail.val r.size

@[simp] theorem length_items (buf : Fin (2 ^ k) → α) (tail n : Nat) :
    (items buf tail n).length = n := by simp [items]

@[simp] theorem length_contents (r : RingBuffer k α) : r.contents.length = r.size :=
  length_items _ _ _

theorem size_lt (r : RingBuffer k α) : r.size < 2 ^ k :=
  Nat.and_lt_two_pow _ (Nat.sub_one_lt (Nat.two_pow_pos k).ne')

/-- The size of a ring whose items are numbered. -/
theorem size_eq {r : RingBuffer k α} {t n : Nat} (ht : r.tail = slot t) (hh : r.head = slot (t + n))
    (hn : n < 2 ^ k) : r.size = n := by
  have htail : r.tail.val = t % 2 ^ k := congrArg Fin.val ht
  have hhead : r.head.val = (t + n) % 2 ^ k := congrArg Fin.val hh
  have hmod := Nat.mod_lt t (Nat.two_pow_pos k)
  rw [size, Nat.and_two_pow_sub_one_eq_mod, hhead, htail, Nat.add_mod, Nat.mod_eq_of_lt hn]
  rcases Nat.lt_or_ge (t % 2 ^ k + n) (2 ^ k) with hlt | hge
  · rw [Nat.mod_eq_of_lt hlt,
      show t % 2 ^ k + n + 2 ^ k - t % 2 ^ k = n + 2 ^ k by omega, Nat.add_mod_right,
      Nat.mod_eq_of_lt hn]
  · have hturn : t % 2 ^ k + n - 2 ^ k < 2 ^ k := by omega
    rw [Nat.mod_eq_sub_mod hge, Nat.mod_eq_of_lt hturn,
      show t % 2 ^ k + n - 2 ^ k + 2 ^ k - t % 2 ^ k = n by omega, Nat.mod_eq_of_lt hn]

theorem head_eq (r : RingBuffer k α) : r.head = slot (r.tail.val + r.size) := by
  refine Fin.ext ?_
  show r.head.val = (r.tail.val + r.size) % 2 ^ k
  have hhead := r.head.isLt
  have htail := r.tail.isLt
  rw [size, Nat.and_two_pow_sub_one_eq_mod, Nat.add_mod_mod,
    show r.tail.val + (r.head.val + 2 ^ k - r.tail.val) = r.head.val + 2 ^ k by omega,
    Nat.add_mod_right, Nat.mod_eq_of_lt hhead]

/-- Items are counted from any number of the tail's slot. -/
theorem items_slot (buf : Fin (2 ^ k) → α) (t n : Nat) :
    items buf (slot t : Fin (2 ^ k)).val n = items buf t n := by
  refine List.ext_getElem (by simp) fun i h _ => ?_
  simp only [items, List.getElem_map, List.getElem_range', Nat.one_mul]
  congr 1
  exact Fin.ext (Nat.mod_add_mod t (2 ^ k) i)

theorem contents_eq {r : RingBuffer k α} {t n : Nat} (ht : r.tail = slot t)
    (hh : r.head = slot (t + n)) (hn : n < 2 ^ k) : r.contents = items r.buf t n := by
  rw [contents, size_eq ht hh hn, ht, items_slot]

theorem items_cons (buf : Fin (2 ^ k) → α) (t n : Nat) :
    items buf t (n + 1) = buf (slot t) :: items buf (t + 1) n := rfl

theorem items_append (buf : Fin (2 ^ k) → α) (t n : Nat) :
    items buf t (n + 1) = items buf t n ++ [buf (slot (t + n))] := by
  simp [items, List.range'_concat]

/-- A slot outside the items can be written. -/
theorem items_update (buf : Fin (2 ^ k) → α) (item : α) {t n m : Nat} (hle : t + n ≤ m)
    (hlt : m < t + 2 ^ k) :
    items (Function.update buf (slot m) item) t n = items buf t n := by
  refine List.map_congr_left fun i hi => Function.update_of_ne ?_ _ _
  rw [List.mem_range'_1] at hi
  exact slot_ne (by omega) (by omega)

/-- Writing the slot behind the items appends. -/
theorem items_write (buf : Fin (2 ^ k) → α) (item : α) {t n : Nat} (hn : n < 2 ^ k) :
    items (Function.update buf (slot (t + n)) item) t (n + 1) = items buf t n ++ [item] := by
  rw [items_append, items_update _ _ (Nat.le_refl _) (by omega), Function.update_self]

/-- The ring is full when one slot is left. -/
theorem full_iff (r : RingBuffer k α) : next r.head = r.tail ↔ r.size + 1 = 2 ^ k := by
  have hlt := r.size_lt
  rw [head_eq, next_slot]
  constructor
  · intro h
    have hpos := Nat.two_pow_pos k
    have hturn : (slot (r.tail.val + r.size + 1) : Fin (2 ^ k)) = slot (r.tail.val + 2 ^ k) := by
      rw [h, slot_add, slot_val]
    have heq := slot_inj hturn (by omega) (by omega)
    omega
  · intro h
    rw [Nat.add_assoc, h, slot_add, slot_val]

theorem empty_iff (r : RingBuffer k α) : r.tail = r.head ↔ r.contents = [] := by
  rw [← List.length_eq_zero_iff, length_contents]
  constructor
  · intro h
    refine size_eq (t := r.tail.val) (slot_val _).symm ?_ (Nat.two_pow_pos k)
    rw [Nat.add_zero, slot_val, h]
  · intro h
    rw [head_eq r, h, Nat.add_zero, slot_val]

@[simp] theorem contents_init (buf : Fin (2 ^ k) → α) : (init buf).contents = [] :=
  (empty_iff _).mp rfl

/-! ## The operations on what is queued -/

theorem contents_push {r r' : RingBuffer k α} {item : α} (h : r.push item = some r') :
    r'.contents = r.contents ++ [item] := by
  have hlt := r.size_lt
  rw [push] at h
  split at h
  · cases h
  · next hfull =>
    rw [full_iff] at hfull
    cases h
    have hnew : next r.head = slot (r.tail.val + (r.size + 1)) := by
      rw [head_eq, next_slot, Nat.add_assoc]
    rw [contents_eq (slot_val _).symm hnew (by omega)]
    show items (Function.update r.buf r.head item) r.tail.val (r.size + 1) = _
    rw [head_eq, items_write _ _ hlt, contents]

/-- A push is refused when the ring is full. -/
theorem push_eq_none {r : RingBuffer k α} {item : α} :
    r.push item = none ↔ r.size + 1 = 2 ^ k := by
  rw [push, ← full_iff]
  split <;> simp [*]

/-- Where the ring has room, `push_overwrite` is `push`. -/
theorem pushOverwrite_of_room {r : RingBuffer k α} (item : α) (h : r.size + 1 ≠ 2 ^ k) :
    (r.pushOverwrite item).contents = r.contents ++ [item] := by
  refine contents_push (r := r) ?_
  rw [Ne, ← full_iff] at h
  rw [push, if_neg h, pushOverwrite, if_neg h]

/-- Where the ring is full, `push_overwrite` takes the oldest item out. -/
theorem pushOverwrite_of_full {r : RingBuffer k α} (item : α) (hfull : r.size + 1 = 2 ^ k) :
    (r.pushOverwrite item).contents = (r.contents ++ [item]).tail := by
  have hnext : next r.head = r.tail := (full_iff r).mpr hfull
  have htail : (r.pushOverwrite item).tail = slot (r.tail.val + 1) := by
    show (if next r.head = r.tail then next r.tail else r.tail) = _
    rw [if_pos hnext, ← next_slot, slot_val]
  have hnew : (r.pushOverwrite item).head = slot (r.tail.val + 1 + r.size) := by
    show next r.head = _
    rw [hnext, Nat.add_assoc, Nat.add_comm 1, hfull, slot_add, slot_val]
  have happend := items_write r.buf item (t := r.tail.val) r.size_lt
  rw [contents_eq htail hnew r.size_lt, contents, ← happend, items_cons, List.tail_cons, ← head_eq]
  rfl

theorem pop_eq_none {r : RingBuffer k α} : r.pop = none ↔ r.contents = [] := by
  rw [pop, ← empty_iff]
  split <;> simp [*]

theorem contents_pop {r r' : RingBuffer k α} {out : α} (h : r.pop = some (out, r')) :
    r.contents = out :: r'.contents := by
  have hlt := r.size_lt
  rw [pop] at h
  split at h
  · cases h
  · next hempty =>
    rw [empty_iff, ← List.length_eq_zero_iff, length_contents] at hempty
    cases h
    obtain ⟨n, hn⟩ : ∃ n, r.size = n + 1 := Nat.exists_eq_succ_of_ne_zero hempty
    have htail : next r.tail = slot (r.tail.val + 1) := by
      rw [← next_slot, slot_val]
    have hhead : r.head = slot (r.tail.val + 1 + n) := by
      rw [head_eq, hn, Nat.add_assoc, Nat.add_comm 1]
    have hrest : ({ r with tail := next r.tail } : RingBuffer k α).contents =
        items r.buf (r.tail.val + 1) n := contents_eq htail hhead (by omega)
    rw [hrest, contents, hn, items_cons, slot_val]

end RingBuffer

end MFoES.Southbridge
