import MFoES.Libgfx.StdPrintf

/-!
# Formats of the freestanding `vsnprintf`

A format is made of text, of `%%`, and of conversions with their arguments (`Item`), and
`Item.expected` is what C prints for each: a negative width of `*` is a `-` and a width, a sign
stands in front of the zeros, and `-` takes the `0` back.  `+` is for signed numbers and `0` for
numbers only.

The code prints something else for two kinds of conversions.  A width of `*` that is negative pads
nothing (`Short`), and zeros stand in front of a sign (`SignBehind`).  `emitted` is what it prints:
`conversion_text` says so for a conversion, and `formatLoop_items` for a format.
-/

namespace MFoES.Libgfx.Freestanding

/-! ## Conversions in C -/

inductive Flag
  | minus
  | zero
  | plus
  deriving DecidableEq

def Flag.text : Flag → UInt8
  | .minus => byte '-'
  | .zero => byte '0'
  | .plus => byte '+'

def digitText (d : Fin 10) : UInt8 := (48 + d.val).toUInt8

/-- A number by its digits, behind `n`. -/
def decimal (n : Nat) (ds : List (Fin 10)) : Nat := ds.foldl (fun n d => n * 10 + d.val) n

inductive Width
  | none
  /-- A first digit, less one, and more of them.  A 0 in front is a flag. -/
  | digits (first : Fin 9) (rest : List (Fin 10))
  | star (w : Int32)

namespace Width

def text : Width → List UInt8
  | .none => []
  | .digits first rest => (first.succ :: rest).map digitText
  | .star _ => [byte '*']

def args : Width → List Arg
  | .star w => [.word w.toUInt32]
  | _ => []

def value : Width → Int
  | .none => 0
  | .digits first rest => decimal 0 (first.succ :: rest)
  | .star w => w.toInt

end Width

inductive Precision
  | none
  | digits (ds : List (Fin 10))
  | star (p : Int32)

namespace Precision

def text : Precision → List UInt8
  | .none => []
  | .digits ds => byte '.' :: ds.map digitText
  | .star _ => [byte '.', byte '*']

def args : Precision → List Arg
  | .star p => [.word p.toUInt32]
  | _ => []

/-- A negative one is as none. -/
def value : Precision → Int
  | .none => -1
  | .digits ds => decimal 0 ds
  | .star p => p.toInt

end Precision

/-- The bytes of a string, in front of its NUL. -/
abbrev CString := { s : List UInt8 // 0 ∉ s }

/-- A letter, with its argument. -/
inductive Conversion
  | d (v : Int32)
  | i (v : Int32)
  | u (v : UInt32)
  | x (v : UInt32)
  | X (v : UInt32)
  | o (v : UInt32)
  | c (v : Int32)
  | s (prec : Precision) (s : CString)

namespace Conversion

def letter : Conversion → UInt8
  | .d _ => byte 'd'
  | .i _ => byte 'i'
  | .u _ => byte 'u'
  | .x _ => byte 'x'
  | .X _ => byte 'X'
  | .o _ => byte 'o'
  | .c _ => byte 'c'
  | .s _ _ => byte 's'

def prec : Conversion → Precision
  | .s prec _ => prec
  | _ => .none

def arg : Conversion → Arg
  | .d v | .i v | .c v => .word v.toUInt32
  | .u v | .x v | .X v | .o v => .word v
  | .s _ str => .str (some str.val)

/-- The zeros of the flag are for numbers. -/
def numeric : Conversion → Bool
  | .c _ | .s _ _ => false
  | _ => true

def sign (plus : Bool) : Conversion → List UInt8
  | .d v | .i v =>
      if v.toInt < 0 then [byte '-'] else if plus then [byte '+'] else []
  | _ => []

/-- What stands behind the sign. -/
def body : Conversion → List UInt8
  | .d v | .i v => numeral 10 false v.toInt.natAbs
  | .u v => numeral 10 false v.toNat
  | .x v => numeral 16 false v.toNat
  | .X v => numeral 16 true v.toNat
  | .o v => numeral 8 false v.toNat
  | .c v => [v.toUInt32.toUInt8]
  | .s prec str => if prec.value < 0 then str.val else str.val.take prec.value.toNat

end Conversion

/-- A conversion, behind its `%`. -/
structure Directive where
  flags : List Flag
  width : Width
  conv : Conversion

namespace Directive

def text (d : Directive) : List UInt8 :=
  d.flags.map Flag.text ++ (d.width.text ++ (d.conv.prec.text ++ [d.conv.letter]))

def args (d : Directive) : List Arg := d.width.args ++ (d.conv.prec.args ++ [d.conv.arg])

def sign (d : Directive) : List UInt8 := d.conv.sign (.plus ∈ d.flags)

/-- What is padded. -/
def core (d : Directive) : List UInt8 := d.sign ++ d.conv.body

/-- What C prints. -/
def expected (d : Directive) : List UInt8 :=
  let pad := d.width.value.natAbs - d.core.length
  if .minus ∈ d.flags ∨ d.width.value < 0 then d.core ++ List.replicate pad (byte ' ')
  else if .zero ∈ d.flags ∧ d.conv.numeric then
    d.sign ++ List.replicate pad (byte '0') ++ d.conv.body
  else List.replicate pad (byte ' ') ++ d.core

/-- A negative width of `*`, which is to be padded. -/
def Short (d : Directive) : Prop :=
  d.width.value < 0 ∧ d.core.length < d.width.value.natAbs

/-- A number with a sign, which is to be padded with zeros. -/
def SignBehind (d : Directive) : Prop :=
  .zero ∈ d.flags ∧ .minus ∉ d.flags ∧ d.sign ≠ [] ∧ (d.core.length : Int) < d.width.value

/-- The digits of the width and of the precision are those of an `int`. -/
def Fits (d : Directive) : Prop := d.width.value < 2 ^ 31 ∧ d.conv.prec.value < 2 ^ 31

instance (d : Directive) : Decidable d.Fits :=
  inferInstanceAs (Decidable (d.width.value < 2 ^ 31 ∧ d.conv.prec.value < 2 ^ 31))

/-- What the code prints. -/
def emitted (d : Directive) : List UInt8 :=
  padded d.core d.width.value (decide (.minus ∈ d.flags))
    (if .zero ∈ d.flags ∧ .minus ∉ d.flags ∧ d.conv.numeric then byte '0' else byte ' ')

end Directive

/-! ## The parser on the text of a conversion -/

/-- A byte that neither the flags nor a width go on with. -/
structure Ends (c : UInt8) : Prop where
  minus : c ≠ byte '-'
  zero : c ≠ byte '0'
  plus : c ≠ byte '+'
  star : c ≠ byte '*'
  digit : ¬ (byte '0' ≤ c ∧ c ≤ byte '9')

instance (c : UInt8) : Decidable (Ends c) :=
  decidable_of_iff (c ≠ byte '-' ∧ c ≠ byte '0' ∧ c ≠ byte '+' ∧ c ≠ byte '*' ∧
      ¬ (byte '0' ≤ c ∧ c ≤ byte '9'))
    ⟨fun ⟨hm, hz, hp, hs, hd⟩ => ⟨hm, hz, hp, hs, hd⟩,
      fun h => ⟨h.minus, h.zero, h.plus, h.star, h.digit⟩⟩

/-- What the parser tells a letter from. -/
theorem letter_spec (c : Conversion) :
    Ends c.letter ∧ c.letter ≠ byte '.' ∧ c.letter ≠ byte 'l' ∧
      ¬ (c.letter = byte 'h' ∨ c.letter = byte 'z') := by
  cases c
  all_goals
    rw [Conversion.letter]
    decide

theorem ends_letter (c : Conversion) : Ends c.letter := (letter_spec c).1

/-- What the flags are after the loop. -/
def setFlags (flags : Flags) (fs : List Flag) : Flags :=
  { left := flags.left || decide (.minus ∈ fs)
    zero := flags.zero || decide (.zero ∈ fs)
    plus := flags.plus || decide (.plus ∈ fs) }

theorem parseFlags_text (flags : Flags) (fs : List Flag) (fmt : List UInt8) :
    parseFlags flags (fs.map Flag.text ++ fmt) = parseFlags (setFlags flags fs) fmt := by
  induction fs generalizing flags with
  | nil => simp [setFlags]
  | cons f fs ih =>
      rw [List.map_cons, List.cons_append, parseFlags, ih, ih, ih]
      cases f with
      | minus => simp [setFlags, Flag.text]
      | zero =>
          rw [if_neg (by decide), if_pos (show Flag.zero.text = byte '0' from rfl)]
          simp [setFlags]
      | plus =>
          rw [if_neg (by decide), if_neg (by decide),
            if_pos (show Flag.plus.text = byte '+' from rfl)]
          simp [setFlags]

theorem parseFlags_ends {c : UInt8} (hc : Ends c) (flags : Flags) (fmt : List UInt8) :
    parseFlags flags (c :: fmt) = (flags, c :: fmt) := by
  rw [parseFlags, if_neg hc.minus, if_neg hc.zero, if_neg hc.plus]

theorem toNat_digitText (d : Fin 10) :
    (byte '0' ≤ digitText d ∧ digitText d ≤ byte '9') ∧ (digitText d - byte '0').toNat = d.val := by
  revert d
  decide

theorem le_decimal (n : Nat) (ds : List (Fin 10)) : n ≤ decimal n ds := by
  induction ds generalizing n with
  | nil => exact Nat.le_refl n
  | cons d ds ih => exact Nat.le_trans (by omega) (ih (n * 10 + d.val))

theorem digits_ends {c : UInt8} (hc : Ends c) (n : Int) (fmt : List UInt8) :
    digits n (c :: fmt) = some (n, c :: fmt) := by
  rw [digits, if_neg hc.digit]

theorem digits_text {c : UInt8} (hc : Ends c) (n : Nat) (ds : List (Fin 10)) (fmt : List UInt8)
    (hn : n < 2 ^ 31) :
    digits n (ds.map digitText ++ c :: fmt) =
      if decimal n ds < 2 ^ 31 then some (↑(decimal n ds), c :: fmt) else none := by
  induction ds generalizing n with
  | nil =>
      rw [decimal, List.foldl_nil, if_pos hn]
      exact digits_ends hc n fmt
  | cons d ds ih =>
      obtain ⟨hdigit, hval⟩ := toNat_digitText d
      have hnext : (n : Int) * 10 + (d.val : Int) = ((n * 10 + d.val : Nat) : Int) := by omega
      rw [List.map_cons, List.cons_append, digits, if_pos hdigit, hval]
      simp only [hnext]
      have hle := le_decimal (n * 10 + d.val) ds
      by_cases hlt : n * 10 + d.val < 2 ^ 31
      · rw [if_pos (by omega), ih _ hlt]
        rfl
      · rw [if_neg (by omega), if_neg]
        exact fun h => hlt (Nat.lt_of_le_of_lt hle h)

theorem star_ne {c : UInt8} (hc : c ≠ byte '*') (n : Int) (fmt : List UInt8) (args : List Arg) :
    star n (c :: fmt) args = some (n, c :: fmt, args) := if_neg hc

theorem star_digits {c : UInt8} (hc : Ends c) (ds : List (Fin 10)) (fmt : List UInt8)
    (args : List Arg) :
    star 0 (ds.map digitText ++ c :: fmt) args = some (0, ds.map digitText ++ c :: fmt, args) := by
  cases ds with
  | nil => exact star_ne hc.star 0 fmt args
  | cons d ds =>
      have hstar : digitText d ≠ byte '*' := by
        revert d
        decide
      exact star_ne hstar 0 _ args

theorem starOrDigits_digits {c : UInt8} (hc : Ends c) (ds : List (Fin 10)) (fmt : List UInt8)
    (args : List Arg) :
    starOrDigits (ds.map digitText ++ c :: fmt) args =
      if (decimal 0 ds : Int) < 2 ^ 31 then some (↑(decimal 0 ds), c :: fmt, args) else none := by
  have hdigits := digits_text hc 0 ds fmt (by decide)
  rw [Int.ofNat_zero] at hdigits
  rw [starOrDigits, star_digits hc, Option.bind_some]
  simp only [hdigits]
  by_cases hlt : decimal 0 ds < 2 ^ 31
  · simp only [if_pos hlt, if_pos (show (decimal 0 ds : Int) < 2 ^ 31 by omega), Option.map_some]
  · simp only [if_neg hlt, if_neg (show ¬ (decimal 0 ds : Int) < 2 ^ 31 by omega),
      Option.map_none]

theorem starOrDigits_star {c : UInt8} (hc : Ends c) (w : Int32) (fmt : List UInt8)
    (args : List Arg) :
    starOrDigits (byte '*' :: c :: fmt) (.word w.toUInt32 :: args) =
      some (w.toInt, c :: fmt, args) := by
  have hstar : star 0 (byte '*' :: c :: fmt) (.word w.toUInt32 :: args) =
      some (w.toInt, c :: fmt, args) := rfl
  rw [starOrDigits, hstar, Option.bind_some]
  simp only [digits_ends hc, Option.map_some]

/-- The width of a conversion. -/
theorem width_text {c : UInt8} (hc : Ends c) (w : Width) (fmt : List UInt8) (args : List Arg) :
    starOrDigits (w.text ++ c :: fmt) (w.args ++ args) =
      if w.value < 2 ^ 31 then some (w.value, c :: fmt, args) else none := by
  cases w with
  | none => exact starOrDigits_digits hc [] fmt args
  | digits first rest => exact starOrDigits_digits hc (first.succ :: rest) fmt args
  | star w =>
      rw [if_pos (show (Width.star w).value < 2 ^ 31 from w.toInt_lt)]
      exact starOrDigits_star hc w fmt args

theorem precision_text {c : UInt8} (hc : Ends c) (hdot : c ≠ byte '.') (p : Precision)
    (fmt : List UInt8) (args : List Arg) :
    precision (p.text ++ c :: fmt) (p.args ++ args) =
      if p.value < 2 ^ 31 then some (p.value, c :: fmt, args) else none := by
  cases p with
  | none => exact if_neg hdot
  | digits ds => exact starOrDigits_digits hc ds fmt args
  | star p =>
      rw [if_pos (show (Precision.star p).value < 2 ^ 31 from p.toInt_lt)]
      exact starOrDigits_star hc p fmt args

theorem lengths_letter (c : Conversion) (fmt : List UInt8) :
    lengths 0 (c.letter :: fmt) = (0, c.letter :: fmt) := by
  obtain ⟨-, -, hl, hhz⟩ := letter_spec c
  rw [lengths, if_neg hl, if_neg hhz]

/-- The flags end in front of a width. -/
theorem parseFlags_width {c : UInt8} (hc : Ends c) (flags : Flags) (w : Width) (fmt : List UInt8) :
    parseFlags flags (w.text ++ c :: fmt) = (flags, w.text ++ c :: fmt) := by
  cases w with
  | none => exact parseFlags_ends hc flags fmt
  | digits first rest =>
      obtain ⟨hminus, hzero, hplus⟩ : digitText first.succ ≠ byte '-' ∧
          digitText first.succ ≠ byte '0' ∧ digitText first.succ ≠ byte '+' := by
        revert first
        decide
      rw [Width.text, List.map_cons, List.cons_append, parseFlags, if_neg hminus, if_neg hzero,
        if_neg hplus]
  | star w => rfl

/-- What stands behind the width begins with a point or a letter. -/
theorem precision_head (d : Directive) (rest : List UInt8) :
    ∃ c fmt, d.conv.prec.text ++ d.conv.letter :: rest = c :: fmt ∧ Ends c := by
  cases hp : d.conv.prec with
  | none => exact ⟨_, _, rfl, ends_letter d.conv⟩
  | digits ds => exact ⟨_, _, rfl, by decide⟩
  | star p => exact ⟨_, _, rfl, by decide⟩

theorem shown_eq (prec : Int) (s : List UInt8) :
    shown prec s = if prec < 0 then s else s.take prec.toNat := by
  rw [shown]
  by_cases hprec : prec < 0
  · rw [if_neg (by omega), if_pos hprec, List.take_length]
  · rw [if_neg hprec]
    by_cases hlt : prec.toNat < s.length
    · rw [if_pos ⟨by omega, hlt⟩]
    · rw [if_neg fun h => hlt h.2, List.take_length, List.take_of_length_le (Nat.le_of_not_lt hlt)]

theorem natAbs_lt (v : Int32) : v.toInt.natAbs < 2 ^ 32 := by
  have hlo := v.le_toInt
  have hhi := v.toInt_lt
  omega

/-- The switch at the letter of a conversion. -/
theorem convert_letter (d : Directive) (rest : List UInt8) (args : List Arg) (o : Out) :
    convert (setFlags {} d.flags) d.width.value d.conv.prec.value 0 (d.conv.letter :: rest)
      (d.conv.arg :: args) o = some (o.putAll d.emitted, rest, args) := by
  have hpadc : (if (setFlags {} d.flags).zero ∧ ¬ (setFlags {} d.flags).left then byte '0'
      else byte ' ') = if .zero ∈ d.flags ∧ .minus ∉ d.flags then byte '0' else byte ' ' := by
    simp [setFlags]
  have hleft : (setFlags {} d.flags).left = decide (.minus ∈ d.flags) := Bool.false_or _
  have hplus : (setFlags {} d.flags).plus = decide (.plus ∈ d.flags) := Bool.false_or _
  rw [convert, hpadc, hleft, hplus]
  have hten {v : Nat} (hv : v < 2 ^ 32) := utoa_eq (show 8 ≤ 10 by decide) (by decide) hv false
  have hsixteen {v : Nat} (hv : v < 2 ^ 32) := utoa_eq (show 8 ≤ 16 by decide) (by decide) hv
  have height {v : Nat} (hv : v < 2 ^ 32) := utoa_eq (show 8 ≤ 8 by decide) (by decide) hv false
  simp only [Directive.emitted, Directive.core, Directive.sign]
  cases d.conv with
  | d v =>
      simp [Conversion.letter, Conversion.arg, vaSigned, putPadded_eq, Conversion.sign,
        Conversion.body, Conversion.numeric, signOf, hten (natAbs_lt v)]
  | i v =>
      simp [Conversion.letter, Conversion.arg, vaSigned, putPadded_eq, Conversion.sign,
        Conversion.body, Conversion.numeric, signOf, hten (natAbs_lt v)]
  | u v =>
      simp [Conversion.letter, Conversion.arg, vaUnsigned, putPadded_eq, Conversion.sign,
        Conversion.body, Conversion.numeric, byte, hten v.toNat_lt]
  | x v =>
      simp [Conversion.letter, Conversion.arg, vaUnsigned, putPadded_eq, Conversion.sign,
        Conversion.body, Conversion.numeric, byte, hsixteen v.toNat_lt]
  | X v =>
      simp [Conversion.letter, Conversion.arg, vaUnsigned, putPadded_eq, Conversion.sign,
        Conversion.body, Conversion.numeric, byte, hsixteen v.toNat_lt]
  | o v =>
      simp [Conversion.letter, Conversion.arg, vaUnsigned, putPadded_eq, Conversion.sign,
        Conversion.body, Conversion.numeric, byte, height v.toNat_lt]
  | c v =>
      simp [Conversion.letter, Conversion.arg, vaWord, putPadded_eq, Conversion.sign,
        Conversion.body, Conversion.numeric, byte]
  | s prec str =>
      simp [Conversion.letter, Conversion.arg, Conversion.prec, vaStr, putPadded_eq,
        Conversion.sign, Conversion.body, Conversion.numeric, byte, shown_eq]

/-- A conversion prints `emitted`.  If its numbers do not fit, there is an overflow. -/
theorem conversion_text (d : Directive) (rest : List UInt8) (args : List Arg) (o : Out) :
    conversion (d.text ++ rest) (d.args ++ args) o =
      if d.Fits then some (o.putAll d.emitted, rest, args) else none := by
  obtain ⟨c, fmt, htail, hc⟩ := precision_head d rest
  obtain ⟨-, hdot, -⟩ := letter_spec d.conv
  have hprec := precision_text (ends_letter d.conv) hdot d.conv.prec rest (d.conv.arg :: args)
  rw [htail] at hprec
  rw [conversion, Directive.text, Directive.args, List.append_assoc, List.append_assoc,
    List.append_assoc, List.append_assoc, List.append_assoc, List.singleton_append,
    List.singleton_append, htail, parseFlags_text, parseFlags_width hc]
  simp only [width_text hc]
  by_cases hwidth : d.width.value < 2 ^ 31
  · rw [if_pos hwidth, Option.bind_some]
    simp only [hprec]
    by_cases hp : d.conv.prec.value < 2 ^ 31
    · rw [if_pos hp, if_pos ⟨hwidth, hp⟩, Option.bind_some]
      simp only [lengths_letter]
      exact convert_letter d rest args o
    · rw [if_neg hp, if_neg fun h => hp h.2, Option.bind_none]
  · rw [if_neg hwidth, if_neg fun h => hwidth h.1, Option.bind_none]

theorem conversion_percent (rest : List UInt8) (args : List Arg) (o : Out) :
    conversion (byte '%' :: rest) args o = some (o.put (byte '%'), rest, args) := by
  have hpercent : Ends (byte '%') := by decide
  have hwidth := starOrDigits_digits hpercent [] rest args
  rw [List.map_nil, List.nil_append] at hwidth
  rw [conversion, parseFlags_ends hpercent]
  simp only [hwidth]
  rfl

/-! ## Formats -/

/-- A part of a format, with its arguments. -/
inductive Item
  | lit (c : UInt8) (hpercent : c ≠ byte '%') (hnul : c ≠ 0)
  | percent
  | conv (d : Directive)

namespace Item

def text : Item → List UInt8
  | .lit c _ _ => [c]
  | .percent => [byte '%', byte '%']
  | .conv d => byte '%' :: d.text

def args : Item → List Arg
  | .conv d => d.args
  | _ => []

/-- What C prints. -/
def expected : Item → List UInt8
  | .lit c _ _ => [c]
  | .percent => [byte '%']
  | .conv d => d.expected

/-- What the code prints. -/
def emitted : Item → List UInt8
  | .conv d => d.emitted
  | item => item.expected

def Fits : Item → Prop
  | .conv d => d.Fits
  | _ => True

def Short : Item → Prop
  | .conv d => d.Short
  | _ => False

def SignBehind : Item → Prop
  | .conv d => d.SignBehind
  | _ => False

end Item

def formatText (items : List Item) : List UInt8 := items.flatMap Item.text

def formatArgs (items : List Item) : List Arg := items.flatMap Item.args

/-- What C prints. -/
def formatted (items : List Item) : List UInt8 := items.flatMap Item.expected

/-- What the code prints. -/
def emittedAll (items : List Item) : List UInt8 := items.flatMap Item.emitted

/-- A turn of the loop for an item. -/
theorem formatLoop_item (item : Item) (fuel : Nat) (rest : List UInt8) (args : List Arg)
    (o : Out) (hitem : item.Fits) :
    formatLoop (fuel + 1) (item.text ++ rest) (item.args ++ args) o =
      formatLoop fuel rest args (o.putAll item.emitted) := by
  cases item with
  | lit c hpercent hnul => exact if_pos hpercent
  | percent =>
      rw [Item.text, List.cons_append, formatLoop, if_neg (not_not_intro rfl)]
      simp only [Item.args, List.nil_append, List.singleton_append, conversion_percent]
      rfl
  | conv d =>
      rw [Item.text, List.cons_append, formatLoop, if_neg (not_not_intro rfl), Item.args,
        conversion_text, if_pos (show d.Fits from hitem)]
      rfl

theorem length_text_pos (item : Item) : 0 < item.text.length := by
  cases item with
  | lit c _ _ => exact Nat.one_pos
  | percent => exact Nat.two_pos
  | conv d => exact Nat.succ_pos _

/-- The loop prints what its items print. -/
theorem formatLoop_items {items : List Item} {fuel : Nat}
    (hfuel : (formatText items).length ≤ fuel) (hitems : ∀ item ∈ items, item.Fits) (o : Out) :
    formatLoop fuel (formatText items) (formatArgs items) o =
      some (o.putAll (emittedAll items)) := by
  induction items generalizing fuel o with
  | nil =>
      cases fuel with
      | zero => rfl
      | succ fuel => rfl
  | cons item items ih =>
      have hpos := length_text_pos item
      rw [formatText, List.flatMap_cons, List.length_append, ← formatText] at hfuel
      obtain ⟨fuel, rfl⟩ := Nat.exists_eq_add_of_le' (show 1 ≤ fuel by omega)
      rw [formatText, formatArgs, List.flatMap_cons, List.flatMap_cons, ← formatText, ← formatArgs,
        formatLoop_item item fuel _ _ o (hitems item List.mem_cons_self),
        ih (by omega) fun item' h => hitems item' (List.mem_cons_of_mem _ h), Out.putAll_append]
      rfl

/-- An overflow anywhere is one of the whole format. -/
theorem formatLoop_overflow {items : List Item} {fuel : Nat}
    (hfuel : (formatText items).length ≤ fuel) (hitems : ¬ ∀ item ∈ items, item.Fits) (o : Out) :
    formatLoop fuel (formatText items) (formatArgs items) o = none := by
  induction items generalizing fuel o with
  | nil => exact absurd (fun item h => absurd h List.not_mem_nil) hitems
  | cons item items ih =>
      have hpos := length_text_pos item
      rw [formatText, List.flatMap_cons, List.length_append, ← formatText] at hfuel
      obtain ⟨fuel, rfl⟩ := Nat.exists_eq_add_of_le' (show 1 ≤ fuel by omega)
      rw [formatText, formatArgs, List.flatMap_cons, List.flatMap_cons, ← formatText, ← formatArgs]
      by_cases hitem : item.Fits
      · rw [formatLoop_item item fuel _ _ o hitem]
        exact ih (by omega) (fun h => hitems (List.forall_mem_cons.mpr ⟨hitem, h⟩)) _
      · cases item with
        | lit c _ _ => exact absurd trivial hitem
        | percent => exact absurd trivial hitem
        | conv d =>
            rw [Item.text, List.cons_append, formatLoop, if_neg (not_not_intro rfl), Item.args,
              conversion_text, if_neg (show ¬ d.Fits from hitem)]
            rfl

end MFoES.Libgfx.Freestanding
