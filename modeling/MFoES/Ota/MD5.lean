import MFoES.Lib.Cyclic
import MFoES.Lib.MD5

/-!
# The built-in MD5

`md5_init`, `md5_update` and `md5_final` of the update daemon.  The state and the block buffer
of a context stand for what has been hashed so far (`Hashes`), so the digest is that of the
whole data, however it is cut into updates (`md5Final_eq`).
-/

namespace MFoES.Ota

open LittleEndian

/-! ## The source -/

/-- Four words: `ctx->state`, and the working variables of `md5_transform`. -/
structure MD5Words where
  a : UInt32
  b : UInt32
  c : UInt32
  d : UInt32
deriving DecidableEq

/-- `MD5_CTX_impl`. -/
structure MD5CtxImpl where
  state : MD5Words
  count0 : UInt32
  count1 : UInt32
  buffer : List UInt8

/-- `MD5_T`. -/
def md5T : List UInt32 :=
  [0xd76aa478, 0xe8c7b756, 0x242070db, 0xc1bdceee, 0xf57c0faf, 0x4787c62a, 0xa8304613, 0xfd469501,
    0x698098d8, 0x8b44f7af, 0xffff5bb1, 0x895cd7be, 0x6b901122, 0xfd987193, 0xa679438e, 0x49b40821,
    0xf61e2562, 0xc040b340, 0x265e5a51, 0xe9b6c7aa, 0xd62f105d, 0x02441453, 0xd8a1e681, 0xe7d3fbc8,
    0x21e1cde6, 0xc33707d6, 0xf4d50d87, 0x455a14ed, 0xa9e3e905, 0xfcefa3f8, 0x676f02d9, 0x8d2a4c8a,
    0xfffa3942, 0x8771f681, 0x6d9d6122, 0xfde5380c, 0xa4beea44, 0x4bdecfa9, 0xf6bb4b60, 0xbebfbc70,
    0x289b7ec6, 0xeaa127fa, 0xd4ef3085, 0x04881d05, 0xd9d4d039, 0xe6db99e5, 0x1fa27cf8, 0xc4ac5665,
    0xf4292244, 0x432aff97, 0xab9423a7, 0xfc93a039, 0x655b59c3, 0x8f0ccc92, 0xffeff47d, 0x85845dd1,
    0x6fa87e4f, 0xfe2ce6e0, 0xa3014314, 0x4e0811a1, 0xf7537e82, 0xbd3af235, 0x2ad7d2bb, 0xeb86d391]

/-- `MD5_S`. -/
def md5S : List UInt8 :=
  [7, 12, 17, 22, 7, 12, 17, 22, 7, 12, 17, 22, 7, 12, 17, 22,
    5, 9, 14, 20, 5, 9, 14, 20, 5, 9, 14, 20, 5, 9, 14, 20,
    4, 11, 16, 23, 4, 11, 16, 23, 4, 11, 16, 23, 4, 11, 16, 23,
    6, 10, 15, 21, 6, 10, 15, 21, 6, 10, 15, 21, 6, 10, 15, 21]

/-- `rotl32`. -/
def rotl32 (x : UInt32) (n : UInt8) : UInt32 := (x <<< n.toUInt32) ||| (x >>> (32 - n.toUInt32))

/-- `md5_init`.  The block buffer is left as it is in memory. -/
def md5Init (mem : Vector UInt8 64) : MD5CtxImpl where
  state := ⟨0x67452301, 0xefcdab89, 0x98badcfe, 0x10325476⟩
  count0 := 0
  count1 := 0
  buffer := mem.toList

/-- `M` in `md5_transform`. -/
def md5M (block : List UInt8) : List UInt32 :=
  (List.range 16).map fun i =>
    (block.getD (i * 4) 0).toUInt32 ||| ((block.getD (i * 4 + 1) 0).toUInt32 <<< 8)
      ||| ((block.getD (i * 4 + 2) 0).toUInt32 <<< 16)
      ||| ((block.getD (i * 4 + 3) 0).toUInt32 <<< 24)

/-- `F` in round `i` of `md5_transform`. -/
def md5F (w : MD5Words) (i : Nat) : UInt32 :=
  if i < 16 then (w.b &&& w.c) ||| (~~~w.b &&& w.d)
  else if i < 32 then (w.d &&& w.b) ||| (~~~w.d &&& w.c)
  else if i < 48 then w.b ^^^ w.c ^^^ w.d
  else w.c ^^^ (w.b ||| ~~~w.d)

/-- `g` in round `i`. -/
def md5G (i : Nat) : Nat :=
  if i < 16 then i
  else if i < 32 then (5 * i + 1) % 16
  else if i < 48 then (3 * i + 5) % 16
  else 7 * i % 16

/-- A round of `md5_transform`. -/
def md5Round (M : List UInt32) (w : MD5Words) (i : Nat) : MD5Words :=
  let F := md5F w i + w.a + md5T.getD i 0 + M.getD (md5G i) 0
  { a := w.d, d := w.c, c := w.b, b := w.b + rotl32 F (md5S.getD i 0) }

/-- `md5_transform`. -/
def md5Transform (state : MD5Words) (block : List UInt8) : MD5Words :=
  let w := (List.range 64).foldl (md5Round (md5M block)) state
  ⟨state.a + w.a, state.b + w.b, state.c + w.c, state.d + w.d⟩

/-- The `for` of `md5_update`, at `i`: the state, and where it ends. -/
def md5Blocks (data : List UInt8) (state : MD5Words) (i : Nat) : MD5Words × Nat :=
  if i + 63 < data.length then
    md5Blocks data (md5Transform state ((data.drop i).take 64)) (i + 64)
  else (state, i)
termination_by data.length - i

/-- `md5_update`. -/
def md5Update (ctx : MD5CtxImpl) (data : List UInt8) : MD5CtxImpl :=
  let len := data.length
  let index := ((ctx.count0 >>> 3) &&& 0x3F).toNat
  let low := UInt32.ofNat (len * 8)
  let count0 := ctx.count0 + low
  let count1 := if count0 < low then ctx.count1 + 1 else ctx.count1
  let count1 := count1 + UInt32.ofNat (len / 2 ^ 29)
  let partLen := 64 - index
  if partLen ≤ len then
    let buffer := Cyclic.splice ctx.buffer index (data.take partLen)
    let (state, i) := md5Blocks data (md5Transform ctx.state buffer) partLen
    ⟨state, count0, count1, Cyclic.splice buffer 0 (data.drop i)⟩
  else ⟨ctx.state, count0, count1, Cyclic.splice ctx.buffer index data⟩

/-- `PADDING`. -/
def md5Padding : List UInt8 := 0x80 :: List.replicate 63 0

/-- `md5_final`: the digest.  It clears the context. -/
def md5Final (ctx : MD5CtxImpl) : MD5CtxImpl × List UInt8 :=
  let bits := le32 ctx.count0 ++ le32 ctx.count1
  let index := ((ctx.count0 >>> 3) &&& 0x3F).toNat
  let padLen := if index < 56 then 56 - index else 120 - index
  let ctx := md5Update (md5Update ctx (md5Padding.take padLen)) bits
  (⟨⟨0, 0, 0, 0⟩, 0, 0, List.replicate 64 0⟩,
    le32 ctx.state.a ++ le32 ctx.state.b ++ le32 ctx.state.c ++ le32 ctx.state.d)

/-- `md5_of_buf`. -/
def md5OfBuf (mem : Vector UInt8 64) (data : List UInt8) : List UInt8 :=
  (md5Final (md5Update (md5Init mem) data)).2

/-- `md5_of_file`, with what each `fread` of a file that is open gives. -/
def md5OfFile (mem : Vector UInt8 64) (chunks : List (List UInt8)) : List UInt8 :=
  (md5Final (chunks.foldl md5Update (md5Init mem))).2

/-! ## The rounds

Where the RFC has an operation write one of the four words, the loop moves the words round.  So
before round `i` the working variables are the buffer in the order of operation `i`. -/

/-- A buffer as working variables, in an order. -/
def view : MD5.WordOrder → MD5.Buffer → MD5Words
  | .ABCD, v => ⟨v.A, v.B, v.C, v.D⟩
  | .DABC, v => ⟨v.D, v.A, v.B, v.C⟩
  | .CDAB, v => ⟨v.C, v.D, v.A, v.B⟩
  | .BCDA, v => ⟨v.B, v.C, v.D, v.A⟩

/-- The order of operation `i`, and of the rounds behind it. -/
def orderAt (i : Nat) : MD5.WordOrder :=
  match i % 4 with
  | 0 => .ABCD
  | 1 => .DABC
  | 2 => .CDAB
  | _ => .BCDA

/-- The order of the next operation. -/
def nextOrder : MD5.WordOrder → MD5.WordOrder
  | .ABCD => .DABC
  | .DABC => .CDAB
  | .CDAB => .BCDA
  | .BCDA => .ABCD

/-- The auxiliary function of round `i`. -/
def auxAt (i : Nat) : MD5.Aux :=
  if i < 16 then .F else if i < 32 then .G else if i < 48 then .H else .I

/-- Operation `i`, as the loop has it. -/
def operationAt (i : Nat) : MD5.Aux × MD5.Operation :=
  (auxAt i, ⟨orderAt i, md5G i, (md5S.getD i 0).toNat, i + 1⟩)

/-- The rounds of the loop are the operations of the RFC. -/
theorem operations_eq : MD5.operations = (List.range 64).map operationAt := by decide

theorem nextOrder_orderAt {i : Nat} (h : i < 64) : nextOrder (orderAt i) = orderAt (i + 1) := by
  revert i
  decide

theorem md5S_bounds {i : Nat} (h : i < 64) :
    0 < (md5S.getD i 0).toNat ∧ (md5S.getD i 0).toNat < 32 := by
  revert i
  decide

theorem md5G_lt {i : Nat} (h : i < 64) : md5G i < 16 := by
  revert i
  decide

theorem rotl32_eq (x : UInt32) {n : UInt8} (h0 : 0 < n.toNat) (h : n.toNat < 32) :
    rotl32 x n = MD5.rotate x n.toNat := by
  apply UInt32.toBitVec_inj.mp
  have hleft : (n.toUInt32.toBitVec % 32).toNat = n.toNat % 32 := rfl
  have hright : ((32 - n.toUInt32).toBitVec % 32).toNat = 32 - n.toNat := by
    have hback : (32 - n.toUInt32).toNat = 32 - n.toNat := by
      rw [UInt32.toNat_sub_of_le]
      · rfl
      · rw [UInt32.le_iff_toNat_le]
        exact Nat.le_of_lt h
    show (32 - n.toUInt32).toNat % 32 = 32 - n.toNat
    rw [hback]
    omega
  show x.toBitVec <<< (n.toUInt32.toBitVec % 32) |||
    x.toBitVec >>> ((32 - n.toUInt32).toBitVec % 32) = x.toBitVec.rotateLeft n.toNat
  rw [BitVec.rotateLeft_def, BitVec.shiftLeft_eq', BitVec.ushiftRight_eq', hleft, hright,
    Nat.mod_eq_of_lt h]

theorem getD_md5M (block : List UInt8) {k : Nat} (h : k < 16) :
    (md5M block).getD k 0 = get32 block (4 * k) := by
  rw [md5M, List.getD_eq_getElem?_getD, List.getElem?_map, List.getElem?_range h, Nat.mul_comm]
  rfl

theorem md5F_eq (w : MD5Words) (i : Nat) : md5F w i = (auxAt i).apply w.b w.c w.d := by
  rw [md5F, auxAt]
  split_ifs
  · rfl
  · show _ = (w.b &&& w.d) ||| (w.c &&& ~~~w.d)
    rw [UInt32.and_comm w.d w.b, UInt32.and_comm (~~~w.d) w.c]
  · rfl
  · rfl

/-- An operation, seen in the order of the next one. -/
theorem view_perform (X : Nat → UInt32) (v : MD5.Buffer) (f : MD5.Aux) (op : MD5.Operation) :
    view (nextOrder op.order) (MD5.perform X v (f, op)) =
      let w := view op.order v
      ⟨w.d, MD5.value f X op w.a w.b w.c w.d, w.b, w.c⟩ := by
  obtain ⟨order, k, s, i⟩ := op
  cases order with
  | ABCD => rfl
  | DABC => rfl
  | CDAB => rfl
  | BCDA => rfl

/-- A round of the loop is an operation of the RFC. -/
theorem md5Round_view (block : List UInt8) (v : MD5.Buffer) {i : Nat} (h : i < 64) :
    md5Round (md5M block) (view (orderAt i) v) i =
      view (orderAt (i + 1)) (MD5.perform (fun k => get32 block (4 * k)) v (operationAt i)) := by
  have hview := view_perform (fun k => get32 block (4 * k)) v (auxAt i) (operationAt i).2
  have hnext : nextOrder (operationAt i).2.order = orderAt (i + 1) := nextOrder_orderAt h
  obtain ⟨h0, hlt⟩ := md5S_bounds h
  have hsum : ∀ f a t x : UInt32, f + a + t + x = a + f + x + t := by
    intro f a t x
    rw [UInt32.add_comm f a, UInt32.add_assoc, UInt32.add_comm t x, ← UInt32.add_assoc]
  rw [hnext] at hview
  refine Eq.trans ?_ hview.symm
  rw [md5Round, md5F_eq, getD_md5M block (md5G_lt h), rotl32_eq _ h0 hlt, hsum]
  rfl

theorem foldl_md5Round (block : List UInt8) (v : MD5.Buffer) {n : Nat} (h : n ≤ 64) :
    (List.range n).foldl (md5Round (md5M block)) (view .ABCD v) =
      view (orderAt n)
        (((List.range n).map operationAt).foldl (MD5.perform fun k => get32 block (4 * k)) v) := by
  induction n with
  | zero => rfl
  | succ n ih =>
      rw [List.range_succ, List.foldl_append, List.map_append, List.foldl_append,
        ih (Nat.le_of_succ_le h)]
      exact md5Round_view block _ h

/-- `md5_transform` processes a block. -/
theorem md5Transform_view (v : MD5.Buffer) (block : List UInt8) :
    md5Transform (view .ABCD v) block = view .ABCD (MD5.process v block) := by
  have hrounds := foldl_md5Round block v (Nat.le_refl 64)
  have horder : orderAt 64 = .ABCD := rfl
  rw [horder, ← operations_eq] at hrounds
  rw [md5Transform, hrounds, MD5.process]
  generalize MD5.operations.foldl (MD5.perform fun k => get32 block (4 * k)) v = w
  rfl

/-! ## Updates -/

/-- What the RFC has of data so far: the buffer, and what is too short for a block. -/
def absorbed (m : List UInt8) : MD5.Buffer × List UInt8 :=
  Blocks.absorb 63 MD5.process MD5.initial m

/-- The context stands for the data that was hashed. -/
structure Hashes (ctx : MD5CtxImpl) (m : List UInt8) : Prop where
  length : ctx.buffer.length = 64
  state : ctx.state = view .ABCD (absorbed m).1
  rest : ctx.buffer.take (m.length % 64) = (absorbed m).2
  count0 : ctx.count0 = UInt32.ofNat (8 * m.length)
  count1 : ctx.count1 = UInt32.ofNat (8 * m.length / 2 ^ 32)

theorem hashes_md5Init (mem : Vector UInt8 64) : Hashes (md5Init mem) [] := by
  have hnil : absorbed [] = (MD5.initial, []) := Blocks.absorb_of_short _ (Nat.zero_le _)
  refine ⟨Vector.length_toList, ?_, ?_, rfl, rfl⟩
  · rw [hnil]
    show (⟨0x67452301, 0xefcdab89, 0x98badcfe, 0x10325476⟩ : MD5Words) = view .ABCD MD5.initial
    decide
  · rw [hnil]
    rfl

/-- The loop absorbs what is left of the data. -/
theorem md5Blocks_view (data : List UInt8) (v : MD5.Buffer) (i : Nat) :
    (md5Blocks data (view .ABCD v) i).1 =
        view .ABCD (Blocks.absorb 63 MD5.process v (data.drop i)).1 ∧
      data.drop (md5Blocks data (view .ABCD v) i).2 =
        (Blocks.absorb 63 MD5.process v (data.drop i)).2 := by
  induction hleft : data.length - i using Nat.strongRecOn generalizing v i with
  | ind n ih =>
      rw [md5Blocks, Blocks.absorb, List.length_drop]
      by_cases hlong : i + 63 < data.length
      · rw [if_pos hlong, if_pos (by omega), md5Transform_view, List.drop_drop]
        exact ih (data.length - (i + 64)) (by omega) _ _ rfl
      · rw [if_neg hlong, if_neg (by omega)]
        exact ⟨rfl, rfl⟩

theorem index_eq {ctx : MD5CtxImpl} {m : List UInt8} (h : Hashes ctx m) :
    ((ctx.count0 >>> 3) &&& 0x3F).toNat = m.length % 64 := by
  have hshift : (3 : UInt32).toNat % 32 = 3 := rfl
  have hmask : (0x3F : UInt32).toNat = 2 ^ 6 - 1 := rfl
  rw [h.count0, UInt32.toNat_and, UInt32.toNat_shiftRight, hshift, hmask,
    Nat.and_two_pow_sub_one_eq_mod, Nat.shiftRight_eq_div_pow, UInt32.toNat_ofNat']
  omega

/-- The counter of 64 bits is two words with a carry. -/
theorem count_add (a d : Nat) :
    UInt32.ofNat (8 * a) + UInt32.ofNat (d * 8) = UInt32.ofNat (8 * (a + d)) ∧
      (if UInt32.ofNat (8 * (a + d)) < UInt32.ofNat (d * 8) then UInt32.ofNat (8 * a / 2 ^ 32) + 1
        else UInt32.ofNat (8 * a / 2 ^ 32)) + UInt32.ofNat (d / 2 ^ 29) =
        UInt32.ofNat (8 * (a + d) / 2 ^ 32) := by
  constructor
  · apply UInt32.toNat_inj.mp
    rw [UInt32.toNat_add, UInt32.toNat_ofNat', UInt32.toNat_ofNat', UInt32.toNat_ofNat']
    omega
  · apply UInt32.toNat_inj.mp
    have hone : (1 : UInt32).toNat = 1 := rfl
    rw [UInt32.toNat_add]
    split
    · next hcarry =>
      rw [UInt32.lt_iff_toNat_lt, UInt32.toNat_ofNat', UInt32.toNat_ofNat'] at hcarry
      rw [UInt32.toNat_add, hone, UInt32.toNat_ofNat', UInt32.toNat_ofNat', UInt32.toNat_ofNat']
      omega
    · next hcarry =>
      rw [UInt32.lt_iff_toNat_lt, UInt32.toNat_ofNat', UInt32.toNat_ofNat'] at hcarry
      rw [UInt32.toNat_ofNat', UInt32.toNat_ofNat', UInt32.toNat_ofNat']
      omega

/-- Data at the front of a buffer, behind `pos` bytes of it. -/
theorem take_splice (buf data : List UInt8) (pos : Nat) (h : pos + data.length ≤ buf.length) :
    (Cyclic.splice buf pos data).take (pos + data.length) = buf.take pos ++ data := by
  have hfront : (buf.take pos ++ data).length = pos + data.length := by
    rw [List.length_append, List.length_take, Nat.min_eq_left (by omega)]
  rw [Cyclic.splice, List.take_left' hfront]

theorem counts_md5Update {ctx : MD5CtxImpl} {m : List UInt8} (h : Hashes ctx m)
    (data : List UInt8) :
    (md5Update ctx data).count0 = UInt32.ofNat (8 * (m ++ data).length) ∧
      (md5Update ctx data).count1 = UInt32.ofNat (8 * (m ++ data).length / 2 ^ 32) := by
  obtain ⟨hlow, hhigh⟩ := count_add m.length data.length
  constructor
  · rw [List.length_append, ← hlow, ← h.count0, md5Update]
    simp only
    split <;> rfl
  · rw [List.length_append, ← hhigh, ← hlow, ← h.count0, ← h.count1, md5Update]
    simp only
    split <;> rfl

theorem absorbed_append (m data : List UInt8) :
    absorbed (m ++ data) =
      Blocks.absorb 63 MD5.process (absorbed m).1 ((absorbed m).2 ++ data) :=
  Blocks.absorb_append _ _ _

theorem length_rest (m : List UInt8) : (absorbed m).2.length = m.length % 64 :=
  Blocks.absorb_rest _ _

/-- Data that fills up the buffer: blocks follow from the data, and the rest goes to the front. -/
theorem hashes_of_fill {ctx : MD5CtxImpl} {m : List UInt8} (h : Hashes ctx m) {data : List UInt8}
    (hpart : 64 - m.length % 64 ≤ data.length) : Hashes (md5Update ctx data) (m ++ data) := by
  have hmod : m.length % 64 < 64 := Nat.mod_lt _ (by decide)
  have hold := length_rest m
  have hrest := length_rest (m ++ data)
  have htake : (data.take (64 - m.length % 64)).length = 64 - m.length % 64 :=
    List.length_take_of_le hpart
  have hblock : Cyclic.splice ctx.buffer (m.length % 64) (data.take (64 - m.length % 64)) =
      (absorbed m).2 ++ data.take (64 - m.length % 64) := by
    have hfull := take_splice ctx.buffer (data.take (64 - m.length % 64)) (m.length % 64)
      (by rw [htake, h.length]; omega)
    rw [h.rest, List.take_of_length_le] at hfull
    · exact hfull
    · rw [Cyclic.length_splice, h.length, htake]
      · omega
      · rw [htake, h.length]
        omega
  have hlen : ((absorbed m).2 ++ data.take (64 - m.length % 64)).length = 63 + 1 := by
    rw [List.length_append, hold, htake]
    omega
  have hsplit : (absorbed m).2 ++ data =
      (absorbed m).2 ++ data.take (64 - m.length % 64) ++ data.drop (64 - m.length % 64) := by
    rw [List.append_assoc, List.take_append_drop]
  have habsorbed := absorbed_append m data
  rw [hsplit, Blocks.absorb_block _ hlen] at habsorbed
  obtain ⟨hstate, hleft⟩ := md5Blocks_view data
    (MD5.process (absorbed m).1 ((absorbed m).2 ++ data.take (64 - m.length % 64)))
    (64 - m.length % 64)
  rw [← habsorbed] at hstate hleft
  have hupdate : (md5Update ctx data).state = view .ABCD (absorbed (m ++ data)).1 ∧
      (md5Update ctx data).buffer =
        Cyclic.splice ((absorbed m).2 ++ data.take (64 - m.length % 64)) 0
          (absorbed (m ++ data)).2 := by
    rw [md5Update]
    simp only [index_eq h, if_pos hpart, hblock, h.state, md5Transform_view, hstate, hleft,
      and_self]
  have hfits : 0 + (absorbed (m ++ data)).2.length ≤
      ((absorbed m).2 ++ data.take (64 - m.length % 64)).length := by
    rw [hrest, hlen]
    omega
  obtain ⟨hcount0, hcount1⟩ := counts_md5Update h data
  refine ⟨?_, hupdate.1, ?_, hcount0, hcount1⟩
  · rw [hupdate.2, Cyclic.length_splice hfits]
    exact hlen
  · have hfront := take_splice _ _ _ hfits
    rw [Nat.zero_add, List.take_zero, List.nil_append, hrest] at hfront
    rw [hupdate.2, hfront]

/-- Data that the buffer has room for goes behind what is there. -/
theorem hashes_of_room {ctx : MD5CtxImpl} {m : List UInt8} (h : Hashes ctx m) {data : List UInt8}
    (hpart : data.length < 64 - m.length % 64) : Hashes (md5Update ctx data) (m ++ data) := by
  have hold := length_rest m
  have hshort : ((absorbed m).2 ++ data).length ≤ 63 := by
    rw [List.length_append, hold]
    omega
  have hupdate : (md5Update ctx data).state = ctx.state ∧
      (md5Update ctx data).buffer = Cyclic.splice ctx.buffer (m.length % 64) data := by
    rw [md5Update]
    simp only [index_eq h, if_neg (Nat.not_le.mpr hpart), and_self]
  have habsorbed := absorbed_append m data
  rw [Blocks.absorb_of_short _ hshort] at habsorbed
  have hfits : m.length % 64 + data.length ≤ ctx.buffer.length := by
    rw [h.length]
    omega
  obtain ⟨hcount0, hcount1⟩ := counts_md5Update h data
  refine ⟨?_, ?_, ?_, hcount0, hcount1⟩
  · rw [hupdate.2, Cyclic.length_splice hfits]
    exact h.length
  · rw [hupdate.1, habsorbed]
    exact h.state
  · have hpos : (m ++ data).length % 64 = m.length % 64 + data.length := by
      rw [List.length_append]
      omega
    rw [hupdate.2, habsorbed, hpos, take_splice _ _ _ hfits, h.rest]

/-- An update appends to the data. -/
theorem hashes_md5Update {ctx : MD5CtxImpl} {m : List UInt8} (h : Hashes ctx m)
    (data : List UInt8) : Hashes (md5Update ctx data) (m ++ data) := by
  rcases Nat.lt_or_ge data.length (64 - m.length % 64) with hroom | hfill
  · exact hashes_of_room h hroom
  · exact hashes_of_fill h hfill

theorem hashes_foldl {ctx : MD5CtxImpl} {m : List UInt8} (h : Hashes ctx m)
    (cuts : List (List UInt8)) : Hashes (cuts.foldl md5Update ctx) (m ++ cuts.flatten) := by
  induction cuts generalizing ctx m with
  | nil =>
      rw [List.flatten_nil, List.append_nil]
      exact h
  | cons data cuts ih =>
      rw [List.foldl_cons, List.flatten_cons, ← List.append_assoc]
      exact ih (hashes_md5Update h data)

/-! ## The digest -/

/-- The padding that `md5_final` takes is that of the RFC. -/
theorem take_md5Padding (n : Nat) :
    md5Padding.take (if n % 64 < 56 then 56 - n % 64 else 120 - n % 64) = MD5.padding n := by
  have hlen : (if n % 64 < 56 then 56 - n % 64 else 120 - n % 64) = (119 - n % 64) % 64 + 1 := by
    split <;> omega
  have hmin : min ((119 - n % 64) % 64) 63 = (119 - n % 64) % 64 := by omega
  rw [hlen, md5Padding, MD5.padding, List.take_succ_cons, List.take_replicate, hmin]

/-- The digest of a context is that of the data it has hashed. -/
theorem md5Final_eq {ctx : MD5CtxImpl} {m : List UInt8} (h : Hashes ctx m) :
    (md5Final ctx).2 = MD5.digest m := by
  have hpadded := hashes_md5Update (hashes_md5Update h (MD5.padding m.length))
    (MD5.lengthWords m.length)
  have hpad : m ++ MD5.padding m.length ++ MD5.lengthWords m.length = MD5.pad m :=
    List.append_assoc _ _ _
  have hstate := hpadded.state
  have hbits : le32 ctx.count0 ++ le32 ctx.count1 = MD5.lengthWords m.length := by
    rw [h.count0, h.count1, MD5.lengthWords]
  rw [hpad] at hstate
  simp only [md5Final, index_eq h, take_md5Padding, hbits, hstate]
  rfl

/-- However data is cut into updates, the digest is that of RFC 1321. -/
theorem md5_eq_digest (mem : Vector UInt8 64) (cuts : List (List UInt8)) :
    (md5Final (cuts.foldl md5Update (md5Init mem))).2 = MD5.digest cuts.flatten :=
  md5Final_eq (hashes_foldl (hashes_md5Init mem) cuts)

/-- So is the digest of a buffer. -/
theorem md5OfBuf_eq (mem : Vector UInt8 64) (data : List UInt8) :
    md5OfBuf mem data = MD5.digest data := by
  have h := hashes_md5Update (hashes_md5Init mem) data
  rw [List.nil_append] at h
  exact md5Final_eq h

/-- And that of a file, whatever `fread` gives at a time. -/
theorem md5OfFile_eq (mem : Vector UInt8 64) (chunks : List (List UInt8)) :
    md5OfFile mem chunks = MD5.digest chunks.flatten := by
  have h := hashes_foldl (hashes_md5Init mem) chunks
  rw [List.nil_append] at h
  exact md5Final_eq h

end MFoES.Ota
