import Mathlib.Data.List.GetD
import Mathlib.Logic.Function.Basic
import Mathlib.Tactic.Common
import Mathlib.Tactic.IntervalCases

/-!
# The freestanding `vsnprintf`

The `vsnprintf` for the NC5874, of bytes.  A format is the list of the bytes in front of its NUL,
and so is a string.  `int`, `long` and pointers have 32 bits there.

A conversion reads flags, a width, a precision, length modifiers and a letter, and takes its
arguments on the way.  A signed overflow in the digits of a width or a precision leaves nothing to
say, and neither do an argument of another kind and a missing one (`none`).  So is floating point,
which is not modelled.

What is written goes through `Out.put`, which counts on where the buffer is full.
-/

namespace MFoES.Libgfx.Freestanding

/-- A character as a byte. -/
def byte (c : Char) : UInt8 := c.toNat.toUInt8

/-! ## Output -/

structure Out where
  buf : Nat → UInt8
  size : UInt32
  len : UInt32 := 0

namespace Out

def put (o : Out) (c : UInt8) : Out :=
  { o with
    buf := if o.len + 1 < o.size then Function.update o.buf o.len.toNat c else o.buf
    len := o.len + 1 }

def putAll (o : Out) (cs : List UInt8) : Out := cs.foldl put o

end Out

def putPadded (o : Out) (s : List UInt8) (width : Int) (left : Bool) (padc : UInt8) : Out :=
  let n := (Int32.ofNat s.length).toInt
  let pad := if n < width then width - n else 0
  let o := if left then o else o.putAll (List.replicate pad.toNat padc)
  let o := o.putAll s
  if left then o.putAll (List.replicate pad.toNat (byte ' ')) else o

/-- The digits that `utoa` chooses from. -/
def utoaDigits (upper : Bool) : List Char :=
  if upper then
    ['0', '1', '2', '3', '4', '5', '6', '7', '8', '9', 'A', 'B', 'C', 'D', 'E', 'F']
  else
    ['0', '1', '2', '3', '4', '5', '6', '7', '8', '9', 'a', 'b', 'c', 'd', 'e', 'f']

/-- The loop of `utoa`, last digit first. -/
def utoaRev (base : Nat) (upper : Bool) : Nat → Nat → List UInt8
  | 0, _ => []
  | fuel + 1, v =>
      byte ((utoaDigits upper).getD (v % base) ' ') ::
        if v / base = 0 then [] else utoaRev base upper fuel (v / base)

/-- `utoa`; `rev` has 24 places. -/
def utoa (v base : Nat) (upper : Bool) : List UInt8 := (utoaRev base upper 24 v).reverse

/-! ## The parts of a conversion -/

/-- An argument of `va_list`. -/
inductive Arg
  /-- An `int`, a `long`, or a pointer that is not read. -/
  | word (w : UInt32)
  | longLong (w : UInt64)
  /-- A string, if it is not null. -/
  | str (s : Option (List UInt8))

/-- `va_arg` of an `int`, or of a pointer that is not read. -/
def vaWord : List Arg → Option (UInt32 × List Arg)
  | .word w :: args => some (w, args)
  | _ => none

/-- `va_arg` of a string. -/
def vaStr : List Arg → Option (Option (List UInt8) × List Arg)
  | .str s :: args => some (s, args)
  | _ => none

structure Flags where
  left : Bool := false
  zero : Bool := false
  plus : Bool := false

/-- The flags loop. -/
def parseFlags (flags : Flags) : List UInt8 → Flags × List UInt8
  | [] => (flags, [])
  | c :: fmt =>
      if c = byte '-' then parseFlags { flags with left := true } fmt
      else if c = byte '0' then parseFlags { flags with zero := true } fmt
      else if c = byte '+' then parseFlags { flags with plus := true } fmt
      else (flags, c :: fmt)

/-- A `*`, with its argument. -/
def star (n : Int) (fmt : List UInt8) (args : List Arg) : Option (Int × List UInt8 × List Arg) :=
  match fmt with
  | c :: fmt =>
      if c = byte '*' then (vaWord args).map fun (w, args) => (w.toInt32.toInt, fmt, args)
      else some (n, c :: fmt, args)
  | [] => some (n, [], args)

/-- The digits loop. -/
def digits (n : Int) : List UInt8 → Option (Int × List UInt8)
  | [] => some (n, [])
  | c :: fmt =>
      if byte '0' ≤ c ∧ c ≤ byte '9' then
        let next := n * 10 + (c - byte '0').toNat
        if -2 ^ 31 ≤ next ∧ next < 2 ^ 31 then digits next fmt else none
      else some (n, c :: fmt)

/-- A `*` or digits, as a width and a precision have them. -/
def starOrDigits (fmt : List UInt8) (args : List Arg) : Option (Int × List UInt8 × List Arg) :=
  (star 0 fmt args).bind fun (n, fmt, args) =>
    (digits n fmt).map fun (n, fmt) => (n, fmt, args)

/-- A precision, or -1. -/
def precision (fmt : List UInt8) (args : List Arg) : Option (Int × List UInt8 × List Arg) :=
  match fmt with
  | c :: fmt =>
      if c = byte '.' then starOrDigits fmt args else some (-1, c :: fmt, args)
  | [] => some (-1, [], args)

/-- The length modifiers. -/
def lengths (lng : Nat) : List UInt8 → Nat × List UInt8
  | [] => (lng, [])
  | c :: fmt =>
      if c = byte 'l' then lengths (lng + 1) fmt
      else if c = byte 'h' ∨ c = byte 'z' then lengths lng fmt
      else (lng, c :: fmt)

/-- `va_arg` of a signed number. -/
def vaSigned (lng : Nat) : List Arg → Option (Int × List Arg)
  | .word w :: args => if lng < 2 then some (w.toInt32.toInt, args) else none
  | .longLong w :: args => if lng < 2 then none else some (w.toInt64.toInt, args)
  | _ => none

/-- `va_arg` of an unsigned number. -/
def vaUnsigned (lng : Nat) : List Arg → Option (Nat × List Arg)
  | .word w :: args => if lng < 2 then some (w.toNat, args) else none
  | .longLong w :: args => if lng < 2 then none else some (w.toNat, args)
  | _ => none

/-- The sign of a number. -/
def signOf (plus : Bool) (v : Int) : List UInt8 :=
  if v < 0 then [byte '-'] else if plus then [byte '+'] else []

/-- What `%s` shows of a string. -/
def shown (prec : Int) (s : List UInt8) : List UInt8 :=
  s.take (if 0 ≤ prec ∧ prec.toNat < s.length then prec.toNat else s.length)

/-- The switch over the letter. -/
def convert (flags : Flags) (width prec : Int) (lng : Nat) (fmt : List UInt8) (args : List Arg)
    (o : Out) : Option (Out × List UInt8 × List Arg) :=
  let padc := if flags.zero ∧ ¬ flags.left then byte '0' else byte ' '
  match fmt with
  | [] => some (o, [], args)
  | c :: fmt =>
      if c = byte 'd' ∨ c = byte 'i' then
        (vaSigned lng args).map fun (v, args) =>
          (putPadded o (signOf flags.plus v ++ utoa v.natAbs 10 false) width flags.left padc,
            fmt, args)
      else if c = byte 'u' ∨ c = byte 'x' ∨ c = byte 'X' ∨ c = byte 'o' then
        (vaUnsigned lng args).map fun (u, args) =>
          let base := if c = byte 'u' then 10 else if c = byte 'o' then 8 else 16
          (putPadded o (utoa u base (c = byte 'X')) width flags.left padc, fmt, args)
      else if c = byte 'p' then
        (vaWord args).map fun (w, args) =>
          let s := [byte '0', byte 'x'] ++ utoa w.toNat 16 false
          (putPadded o s width flags.left (byte ' '), fmt, args)
      else if c = byte 'c' then
        (vaWord args).map fun (w, args) =>
          (putPadded o [w.toUInt8] width flags.left (byte ' '), fmt, args)
      else if c = byte 's' then
        (vaStr args).map fun (s, args) =>
          let s := s.getD (['(', 'n', 'u', 'l', 'l', ')'].map byte)
          (putPadded o (shown prec s) width flags.left (byte ' '), fmt, args)
      else if c = byte 'f' ∨ c = byte 'F' then none
      else if c = byte '%' then some (o.put c, fmt, args)
      else some ((o.put (byte '%')).put c, fmt, args)

/-- A conversion, behind its `%`. -/
def conversion (fmt : List UInt8) (args : List Arg) (o : Out) :
    Option (Out × List UInt8 × List Arg) :=
  let (flags, fmt) := parseFlags {} fmt
  (starOrDigits fmt args).bind fun (width, fmt, args) =>
    (precision fmt args).bind fun (prec, fmt, args) =>
      let (lng, fmt) := lengths 0 fmt
      convert flags width prec lng fmt args o

/-- The loop over the format.  Every turn takes a byte of it. -/
def formatLoop : Nat → List UInt8 → List Arg → Out → Option Out
  | _, [], _, o => some o
  | 0, _, _, _ => none
  | fuel + 1, c :: fmt, args, o =>
      if c ≠ byte '%' then formatLoop fuel fmt args (o.put c)
      else
        (conversion fmt args o).bind fun (o, fmt, args) => formatLoop fuel fmt args o

/-- `vsnprintf`: the buffer that it leaves, and what it returns. -/
def vsnprintf (buf : Nat → UInt8) (size : UInt32) (fmt : List UInt8) (args : List Arg) :
    Option ((Nat → UInt8) × Int32) :=
  (formatLoop fmt.length fmt args { buf, size }).map fun o =>
    (if size = 0 then o.buf
      else Function.update o.buf (if o.len < size then o.len else size - 1).toNat 0,
      o.len.toInt32)

/-! ## What is written -/

namespace Out

theorem putAll_append (o : Out) (cs ds : List UInt8) :
    (o.putAll cs).putAll ds = o.putAll (cs ++ ds) := (List.foldl_append).symm

@[simp] theorem put_size (o : Out) (c : UInt8) : (o.put c).size = o.size := rfl

@[simp] theorem putAll_size (o : Out) (cs : List UInt8) : (o.putAll cs).size = o.size := by
  induction cs generalizing o with
  | nil => rfl
  | cons c cs ih => exact ih (o.put c)

theorem put_len {o : Out} (h : o.len.toNat + 1 < 2 ^ 32) (c : UInt8) :
    (o.put c).len.toNat = o.len.toNat + 1 := by
  rw [put, UInt32.toNat_add, UInt32.toNat_one, Nat.mod_eq_of_lt h]

theorem putAll_len {o : Out} {cs : List UInt8} (h : o.len.toNat + cs.length < 2 ^ 32) :
    (o.putAll cs).len.toNat = o.len.toNat + cs.length := by
  induction cs generalizing o with
  | nil => rfl
  | cons c cs ih =>
      rw [List.length_cons] at h ⊢
      have hlen := put_len (o := o) (by omega) c
      rw [putAll, List.foldl_cons, ← putAll, ih (by omega), hlen]
      omega

theorem put_buf {o : Out} (h : o.len.toNat + 1 < 2 ^ 32) (c : UInt8) (i : Nat) :
    (o.put c).buf i = if i = o.len.toNat ∧ i + 1 < o.size.toNat then c else o.buf i := by
  have hlt : o.len + 1 < o.size ↔ o.len.toNat + 1 < o.size.toNat := by
    rw [UInt32.lt_iff_toNat_lt, UInt32.toNat_add, UInt32.toNat_one, Nat.mod_eq_of_lt h]
  rw [put]
  by_cases hroom : o.len.toNat + 1 < o.size.toNat
  · simp only [if_pos (hlt.mpr hroom), Function.update_apply]
    by_cases hi : i = o.len.toNat
    · rw [if_pos hi, if_pos ⟨hi, hi ▸ hroom⟩]
    · rw [if_neg hi, if_neg fun h => hi h.1]
  · simp only [if_neg (mt hlt.mp hroom)]
    rw [if_neg]
    rintro ⟨rfl, hi⟩
    exact hroom hi

/-- What is written stands behind what was written before, as far as there is room for a NUL. -/
theorem putAll_buf {o : Out} {cs : List UInt8} (h : o.len.toNat + cs.length < 2 ^ 32) (i : Nat) :
    (o.putAll cs).buf i =
      if o.len.toNat ≤ i ∧ i + 1 < o.size.toNat then (cs[i - o.len.toNat]?).getD (o.buf i)
      else o.buf i := by
  induction cs generalizing o with
  | nil =>
      rw [List.getElem?_nil, Option.getD_none, ite_self]
      rfl
  | cons c cs ih =>
      rw [List.length_cons] at h
      have hone : o.len.toNat + 1 < 2 ^ 32 := by omega
      have hlen := put_len hone c
      rw [putAll, List.foldl_cons, ← putAll, ih (by omega), hlen, put_buf hone, put_size]
      rcases Nat.lt_trichotomy i o.len.toNat with hlt | heq | hgt
      · rw [if_neg (by omega), if_neg (by omega), if_neg (by omega)]
      · subst heq
        rw [if_neg (by omega), Nat.sub_self]
        simp
      · have hsub : i - o.len.toNat = i - (o.len.toNat + 1) + 1 := by omega
        have hnew : ¬ (i = o.len.toNat ∧ i + 1 < o.size.toNat) := fun h => Nat.ne_of_gt hgt h.1
        rw [hsub, List.getElem?_cons_succ, if_neg hnew]
        by_cases hroom : i + 1 < o.size.toNat
        · rw [if_pos ⟨hgt, hroom⟩, if_pos ⟨Nat.le_of_lt hgt, hroom⟩]
        · rw [if_neg fun h => hroom h.2, if_neg fun h => hroom h.2]

end Out

/-- What `putPadded` writes. -/
def padded (s : List UInt8) (width : Int) (left : Bool) (padc : UInt8) : List UInt8 :=
  let n := (Int32.ofNat s.length).toInt
  let pad := (if n < width then width - n else 0).toNat
  if left then s ++ List.replicate pad (byte ' ') else List.replicate pad padc ++ s

theorem putPadded_eq (o : Out) (s : List UInt8) (width : Int) (left : Bool) (padc : UInt8) :
    putPadded o s width left padc = o.putAll (padded s width left padc) := by
  cases left with
  | true => exact Out.putAll_append o _ _
  | false => exact Out.putAll_append o _ _

/-! ## Digits -/

/-- A number in a base. -/
def numeral (base : Nat) (upper : Bool) (n : Nat) : List UInt8 :=
  (Nat.toDigits base n).map fun c => byte (if upper then c.toUpper else c)

theorem byte_utoaDigits {d : Nat} (hd : d < 16) (upper : Bool) :
    byte ((utoaDigits upper).getD d ' ') =
      byte (if upper then d.digitChar.toUpper else d.digitChar) := by
  cases upper with
  | true => interval_cases d <;> rfl
  | false => interval_cases d <;> rfl

theorem utoaRev_reverse {base fuel v : Nat} (hb : 1 < base) (hbase : base ≤ 16)
    (hv : v < base ^ (fuel + 1)) (upper : Bool) :
    (utoaRev base upper (fuel + 1) v).reverse = numeral base upper v := by
  induction fuel generalizing v with
  | zero =>
      rw [Nat.zero_add, Nat.pow_one] at hv
      rw [utoaRev, if_pos (Nat.div_eq_of_lt hv), Nat.mod_eq_of_lt hv,
        byte_utoaDigits (by omega), numeral, Nat.toDigits_of_lt_base hv]
      rfl
  | succ fuel ih =>
      have hmod : v % base < 16 := Nat.lt_of_lt_of_le (Nat.mod_lt v (by omega)) hbase
      rw [utoaRev, byte_utoaDigits hmod, numeral, Nat.toDigits_eq_if hb]
      by_cases hlt : v < base
      · rw [if_pos (Nat.div_eq_of_lt hlt), if_pos hlt, Nat.mod_eq_of_lt hlt]
        rfl
      · have hdiv : v / base < base ^ (fuel + 1) := by
          rw [Nat.div_lt_iff_lt_mul (by omega), ← Nat.pow_succ]
          exact hv
        have hne : v / base ≠ 0 := Nat.ne_of_gt (Nat.div_pos (Nat.le_of_not_lt hlt) (by omega))
        rw [if_neg hne, if_neg hlt, List.reverse_cons, ih hdiv, numeral, List.map_append]
        rfl

/-- `utoa` gives the digits of a 32-bit number. -/
theorem utoa_eq {base v : Nat} (hb : 8 ≤ base) (hbase : base ≤ 16) (hv : v < 2 ^ 32)
    (upper : Bool) : utoa v base upper = numeral base upper v := by
  refine utoaRev_reverse (by omega) hbase (Nat.lt_of_lt_of_le hv ?_) upper
  exact Nat.le_trans (by decide) (Nat.pow_le_pow_left hb 24)

end MFoES.Libgfx.Freestanding
