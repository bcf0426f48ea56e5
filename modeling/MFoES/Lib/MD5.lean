import MFoES.Lib.Blocks
import MFoES.Lib.LittleEndian

/-!
# MD5

The message digest of RFC 1321, as its text has it: the padding of section 3.1, the length of
3.2, the buffer of 3.3, the four rounds of 3.4 with their operations `[abcd k s i]` one by one,
and the output of 3.5.  A message is a list of bytes, so its length in bits is a multiple of
eight, and the padding starts with the byte `0x80`.
-/

namespace MD5

open LittleEndian

/-! ## Padding and length -/

/-- A single 1 bit, and 0 bits up to 448 modulo 512 bits, for a message of `n` bytes. -/
def padding (n : Nat) : List UInt8 := 0x80 :: List.replicate ((119 - n % 64) % 64) 0

/-- The length in bits, modulo `2 ^ 64`, as two words, low-order word first. -/
def lengthWords (n : Nat) : List UInt8 :=
  le32 (UInt32.ofNat (8 * n)) ++ le32 (UInt32.ofNat (8 * n / 2 ^ 32))

/-- The message with padding and length. -/
def pad (m : List UInt8) : List UInt8 := m ++ (padding m.length ++ lengthWords m.length)

/-- The padded message is made of blocks of sixteen words. -/
theorem length_pad_mod (m : List UInt8) : (pad m).length % 64 = 0 := by
  rw [pad, List.length_append, List.length_append, padding, lengthWords, List.length_cons,
    List.length_replicate, List.length_append, length_le32, length_le32]
  omega

/-! ## The rounds -/

/-- The buffer of four words. -/
structure Buffer where
  A : UInt32
  B : UInt32
  C : UInt32
  D : UInt32
deriving DecidableEq

/-- The initial buffer, from its bytes. -/
def initial : Buffer where
  A := ofLE32 0x01 0x23 0x45 0x67
  B := ofLE32 0x89 0xab 0xcd 0xef
  C := ofLE32 0xfe 0xdc 0xba 0x98
  D := ofLE32 0x76 0x54 0x32 0x10

/-- The auxiliary functions. -/
inductive Aux where
  | F | G | H | I
deriving DecidableEq

/-- What they compute, bit by bit. -/
def Aux.apply : Aux → UInt32 → UInt32 → UInt32 → UInt32
  | F, X, Y, Z => (X &&& Y) ||| (~~~X &&& Z)
  | G, X, Y, Z => (X &&& Z) ||| (Y &&& ~~~Z)
  | H, X, Y, Z => X ^^^ Y ^^^ Z
  | I, X, Y, Z => Y ^^^ (X ||| ~~~Z)

/-- The table `T`, whose element `i` is the integer part of `4294967296` times `abs(sin(i))`,
with `i` in radians from 1 on. -/
def T : List UInt32 :=
  [0xd76aa478, 0xe8c7b756, 0x242070db, 0xc1bdceee, 0xf57c0faf, 0x4787c62a, 0xa8304613, 0xfd469501,
    0x698098d8, 0x8b44f7af, 0xffff5bb1, 0x895cd7be, 0x6b901122, 0xfd987193, 0xa679438e, 0x49b40821,
    0xf61e2562, 0xc040b340, 0x265e5a51, 0xe9b6c7aa, 0xd62f105d, 0x02441453, 0xd8a1e681, 0xe7d3fbc8,
    0x21e1cde6, 0xc33707d6, 0xf4d50d87, 0x455a14ed, 0xa9e3e905, 0xfcefa3f8, 0x676f02d9, 0x8d2a4c8a,
    0xfffa3942, 0x8771f681, 0x6d9d6122, 0xfde5380c, 0xa4beea44, 0x4bdecfa9, 0xf6bb4b60, 0xbebfbc70,
    0x289b7ec6, 0xeaa127fa, 0xd4ef3085, 0x04881d05, 0xd9d4d039, 0xe6db99e5, 0x1fa27cf8, 0xc4ac5665,
    0xf4292244, 0x432aff97, 0xab9423a7, 0xfc93a039, 0x655b59c3, 0x8f0ccc92, 0xffeff47d, 0x85845dd1,
    0x6fa87e4f, 0xfe2ce6e0, 0xa3014314, 0x4e0811a1, 0xf7537e82, 0xbd3af235, 0x2ad7d2bb, 0xeb86d391]

/-- The word rotated left by `s` bits. -/
def rotate (x : UInt32) (s : Nat) : UInt32 := ⟨x.toBitVec.rotateLeft s⟩

/-- The order in which an operation takes the words of the buffer. -/
inductive WordOrder where
  | ABCD | DABC | CDAB | BCDA
deriving DecidableEq

/-- An operation `[abcd k s i]`. -/
structure Operation where
  order : WordOrder
  k : Nat
  s : Nat
  i : Nat
deriving DecidableEq

/-- `b + ((a + f(b,c,d) + X[k] + T[i]) <<< s)`. -/
def value (f : Aux) (X : Nat → UInt32) (op : Operation) (a b c d : UInt32) : UInt32 :=
  b + rotate (a + f.apply b c d + X op.k + T.getD (op.i - 1) 0) op.s

/-- Perform an operation: the first of the words in its order becomes the value. -/
def perform (X : Nat → UInt32) (v : Buffer) (op : Aux × Operation) : Buffer :=
  match op.2.order with
  | .ABCD => { v with A := value op.1 X op.2 v.A v.B v.C v.D }
  | .DABC => { v with D := value op.1 X op.2 v.D v.A v.B v.C }
  | .CDAB => { v with C := value op.1 X op.2 v.C v.D v.A v.B }
  | .BCDA => { v with B := value op.1 X op.2 v.B v.C v.D v.A }

open WordOrder in
/-- Round 1. -/
def round1 : List Operation :=
  [⟨ABCD, 0, 7, 1⟩, ⟨DABC, 1, 12, 2⟩, ⟨CDAB, 2, 17, 3⟩, ⟨BCDA, 3, 22, 4⟩,
    ⟨ABCD, 4, 7, 5⟩, ⟨DABC, 5, 12, 6⟩, ⟨CDAB, 6, 17, 7⟩, ⟨BCDA, 7, 22, 8⟩,
    ⟨ABCD, 8, 7, 9⟩, ⟨DABC, 9, 12, 10⟩, ⟨CDAB, 10, 17, 11⟩, ⟨BCDA, 11, 22, 12⟩,
    ⟨ABCD, 12, 7, 13⟩, ⟨DABC, 13, 12, 14⟩, ⟨CDAB, 14, 17, 15⟩, ⟨BCDA, 15, 22, 16⟩]

open WordOrder in
/-- Round 2. -/
def round2 : List Operation :=
  [⟨ABCD, 1, 5, 17⟩, ⟨DABC, 6, 9, 18⟩, ⟨CDAB, 11, 14, 19⟩, ⟨BCDA, 0, 20, 20⟩,
    ⟨ABCD, 5, 5, 21⟩, ⟨DABC, 10, 9, 22⟩, ⟨CDAB, 15, 14, 23⟩, ⟨BCDA, 4, 20, 24⟩,
    ⟨ABCD, 9, 5, 25⟩, ⟨DABC, 14, 9, 26⟩, ⟨CDAB, 3, 14, 27⟩, ⟨BCDA, 8, 20, 28⟩,
    ⟨ABCD, 13, 5, 29⟩, ⟨DABC, 2, 9, 30⟩, ⟨CDAB, 7, 14, 31⟩, ⟨BCDA, 12, 20, 32⟩]

open WordOrder in
/-- Round 3. -/
def round3 : List Operation :=
  [⟨ABCD, 5, 4, 33⟩, ⟨DABC, 8, 11, 34⟩, ⟨CDAB, 11, 16, 35⟩, ⟨BCDA, 14, 23, 36⟩,
    ⟨ABCD, 1, 4, 37⟩, ⟨DABC, 4, 11, 38⟩, ⟨CDAB, 7, 16, 39⟩, ⟨BCDA, 10, 23, 40⟩,
    ⟨ABCD, 13, 4, 41⟩, ⟨DABC, 0, 11, 42⟩, ⟨CDAB, 3, 16, 43⟩, ⟨BCDA, 6, 23, 44⟩,
    ⟨ABCD, 9, 4, 45⟩, ⟨DABC, 12, 11, 46⟩, ⟨CDAB, 15, 16, 47⟩, ⟨BCDA, 2, 23, 48⟩]

open WordOrder in
/-- Round 4. -/
def round4 : List Operation :=
  [⟨ABCD, 0, 6, 49⟩, ⟨DABC, 7, 10, 50⟩, ⟨CDAB, 14, 15, 51⟩, ⟨BCDA, 5, 21, 52⟩,
    ⟨ABCD, 12, 6, 53⟩, ⟨DABC, 3, 10, 54⟩, ⟨CDAB, 10, 15, 55⟩, ⟨BCDA, 1, 21, 56⟩,
    ⟨ABCD, 8, 6, 57⟩, ⟨DABC, 15, 10, 58⟩, ⟨CDAB, 6, 15, 59⟩, ⟨BCDA, 13, 21, 60⟩,
    ⟨ABCD, 4, 6, 61⟩, ⟨DABC, 11, 10, 62⟩, ⟨CDAB, 2, 15, 63⟩, ⟨BCDA, 9, 21, 64⟩]

/-- The operations of a block, with the auxiliary functions of their rounds. -/
def operations : List (Aux × Operation) :=
  round1.map (.F, ·) ++ round2.map (.G, ·) ++ round3.map (.H, ·) ++ round4.map (.I, ·)

/-- Process a block of sixteen words. -/
def process (v : Buffer) (block : List UInt8) : Buffer :=
  let w := operations.foldl (perform fun k => get32 block (4 * k)) v
  ⟨v.A + w.A, v.B + w.B, v.C + w.C, v.D + w.D⟩

/-- The output: the buffer, low-order bytes first. -/
def Buffer.output (v : Buffer) : List UInt8 := le32 v.A ++ le32 v.B ++ le32 v.C ++ le32 v.D

/-- The message digest. -/
def digest (m : List UInt8) : List UInt8 :=
  (Blocks.absorb 63 process initial (pad m)).1.output

/-- The digest leaves out nothing of the padded message. -/
theorem rest_pad (m : List UInt8) : (Blocks.absorb 63 process initial (pad m)).2 = [] :=
  Blocks.absorb_whole _ (length_pad_mod m)

/-- The digest of the empty message is d41d8cd98f00b204e9800998ecf8427e. -/
example : digest [] =
    [0xd4, 0x1d, 0x8c, 0xd9, 0x8f, 0x00, 0xb2, 0x04, 0xe9, 0x80, 0x09, 0x98, 0xec, 0xf8, 0x42,
      0x7e] := by
  rw [digest, ← List.append_nil (pad []), Blocks.absorb_block _ (by decide),
    Blocks.absorb_of_short _ (by decide)]
  decide +kernel

end MD5
