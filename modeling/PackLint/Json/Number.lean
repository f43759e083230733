import PackLint.Json.Basic
import PackLint.Json.Decimal

/-! # Numbers in JSON text

    A numeral without fraction and exponent is an integer if it fits 64 bits, with
    or without a sign.  Any other is a binary fraction: its first digits, as many
    as fit 64 bits, are scaled by a power of ten in one step, so the last bit of a
    long numeral may differ from the nearest number.  A number too large for
    binary fractions is refused.

    A binary fraction is written with the fewest digits that read back, in
    positional notation from `0.00001` to below `1e16` and with an exponent
    elsewhere. -/

namespace PackLint.Json

/-- A numeral, cut into its parts. -/
structure Numeral where
  negative : Bool
  whole : List Char
  fraction : Option (List Char)
  /-- The exponent, and whether it is negative. -/
  exponent : Option (Bool × List Char)
deriving DecidableEq, Repr

namespace Numeral

/-- One digit or more, and the text behind them. -/
def digits? (cs : List Char) : Option (List Char × List Char) :=
  match cs.takeWhile Char.isDigit with
  | [] => none
  | digits => some (digits, cs.dropWhile Char.isDigit)

/-- The whole part: no digit follows a leading zero. -/
def whole? : List Char → Option (List Char × List Char)
  | '0' :: cs => some (['0'], cs)
  | cs => digits? cs

/-- The fraction if there is one, `none` if it lacks digits. -/
def fraction? : List Char → Option (Option (List Char) × List Char)
  | '.' :: cs => (digits? cs).map fun (digits, rest) => (some digits, rest)
  | cs => some (none, cs)

/-- The digits of an exponent behind its sign. -/
def signedDigits? : List Char → Option ((Bool × List Char) × List Char)
  | '-' :: cs => (digits? cs).map fun (digits, rest) => ((true, digits), rest)
  | '+' :: cs => (digits? cs).map fun (digits, rest) => ((false, digits), rest)
  | cs => (digits? cs).map fun (digits, rest) => ((false, digits), rest)

/-- The exponent if there is one, `none` if it lacks digits. -/
def exponent? : List Char → Option (Option (Bool × List Char) × List Char)
  | 'e' :: cs | 'E' :: cs =>
      (signedDigits? cs).map fun (exponent, rest) => (some exponent, rest)
  | cs => some (none, cs)

/-- The numeral that a text begins with, and the text behind it. -/
def read? (cs : List Char) : Option (Numeral × List Char) := do
  let (negative, cs) := match cs with
    | '-' :: rest => (true, rest)
    | _ => (false, cs)
  let (whole, cs) ← whole? cs
  let (fraction, cs) ← fraction? cs
  let (exponent, cs) ← exponent? cs
  pure (⟨negative, whole, fraction, exponent⟩, cs)

/-- The value of a digit. -/
def digitValue (c : Char) : Nat :=
  c.toNat - 0x30

/-- The number that a list of digits denotes. -/
def value (digits : List Char) : Nat :=
  digits.foldl (fun n c => 10 * n + digitValue c) 0

/-- Appends digits to a significand as long as it fits 64 bits, and counts the
    digits that are left. -/
def absorb (significand : Nat) : List Char → Nat × Nat
  | [] => (significand, 0)
  | c :: cs =>
      let longer := 10 * significand + digitValue c
      if longer < Nat.pow 2 64 then absorb longer cs else (significand, cs.length + 1)

/-- A power of ten. -/
def tenTo (n : Nat) : Float :=
  Float.ofScientific 1 false n

/-- A number times a power of ten, unless it gets too large. -/
def scaleUp? (x : Float) (n : Nat) : Option Float :=
  if n ≤ 308 then
    let y := x * tenTo n
    if y.isInf then none else some y
  else if x == 0 then some x else none

/-- A number divided by a power of ten, which goes in steps of the largest one. -/
def scaleDown (x : Float) (n : Nat) : Float :=
  if n ≤ 308 then x / tenTo n
  else if x == 0 then x
  else scaleDown (x / tenTo 308) (n - 308)
termination_by n

/-- The significand times a power of ten as a binary fraction. -/
def scaled? (significand : Nat) (exponent : Int) : Option Float :=
  let x := (UInt64.ofNat significand).toFloat
  if 0 ≤ exponent then scaleUp? x exponent.toNat else some (scaleDown x (-exponent).toNat)

/-- The binary fraction without its sign. -/
def magnitude? (n : Numeral) : Option Float :=
  let (significand, left) := absorb 0 n.whole
  let fraction := n.fraction.getD []
  let (significand, ignored) := absorb significand fraction
  let exponent : Int := left - (fraction.length - ignored : Nat)
  match n.exponent with
  | none => scaled? significand exponent
  | some (negative, digits) =>
      if value digits < Nat.pow 2 31 then
        scaled? significand
          (if negative then exponent - value digits else exponent + value digits)
      else if significand = 0 ∨ negative then some 0
      else none

/-- The integer, for a numeral that is one and fits 64 bits.  Zero has no sign. -/
def integer? (n : Numeral) : Option Int :=
  if n.fraction.isSome || n.exponent.isSome then none
  else
    let m := value n.whole
    if n.negative then
      if 0 < m ∧ m ≤ Nat.pow 2 63 then some (-m) else none
    else if m < Nat.pow 2 64 then some m else none

/-- The binary fraction that a numeral denotes, unless it is too large. -/
def binary? (n : Numeral) : Option Float :=
  n.magnitude?.map fun x => if n.negative then -x else x

/-- What `digits?` leaves is shorter. -/
theorem length_of_digits? {cs digits rest : List Char}
    (h : digits? cs = some (digits, rest)) : rest.length < cs.length := by
  unfold digits? at h
  split at h
  · exact nomatch h
  · rename_i hne
    obtain ⟨-, rfl⟩ := Prod.mk.inj (Option.some.inj h)
    have hlen := congrArg List.length (List.takeWhile_append_dropWhile (p := Char.isDigit) (l := cs))
    rw [List.length_append] at hlen
    have := List.length_pos_iff.mpr hne
    omega

theorem length_of_whole? {cs digits rest : List Char}
    (h : whole? cs = some (digits, rest)) : rest.length < cs.length := by
  unfold whole? at h
  split at h
  · obtain ⟨-, rfl⟩ := Prod.mk.inj (Option.some.inj h)
    exact Nat.lt_succ_self _
  · exact length_of_digits? h

theorem length_of_fraction? {cs rest : List Char} {fraction : Option (List Char)}
    (h : fraction? cs = some (fraction, rest)) : rest.length ≤ cs.length := by
  unfold fraction? at h
  split at h
  · obtain ⟨⟨digits, left⟩, hd, he⟩ := Option.map_eq_some_iff.mp h
    obtain ⟨-, rfl⟩ := Prod.mk.inj he
    exact Nat.le_succ_of_le (Nat.le_of_lt (length_of_digits? hd))
  · obtain ⟨-, rfl⟩ := Prod.mk.inj (Option.some.inj h)
    exact Nat.le_refl _

theorem length_of_signedDigits? {cs rest : List Char} {exponent : Bool × List Char}
    (h : signedDigits? cs = some (exponent, rest)) : rest.length ≤ cs.length := by
  unfold signedDigits? at h
  split at h
  case h_3 =>
    obtain ⟨⟨digits, left⟩, hd, he⟩ := Option.map_eq_some_iff.mp h
    obtain ⟨-, rfl⟩ := Prod.mk.inj he
    exact Nat.le_of_lt (length_of_digits? hd)
  all_goals
    obtain ⟨⟨digits, left⟩, hd, he⟩ := Option.map_eq_some_iff.mp h
    obtain ⟨-, rfl⟩ := Prod.mk.inj he
    exact Nat.le_succ_of_le (Nat.le_of_lt (length_of_digits? hd))

theorem length_of_exponent? {cs rest : List Char} {exponent : Option (Bool × List Char)}
    (h : exponent? cs = some (exponent, rest)) : rest.length ≤ cs.length := by
  unfold exponent? at h
  split at h
  case h_3 =>
    obtain ⟨-, rfl⟩ := Prod.mk.inj (Option.some.inj h)
    exact Nat.le_refl _
  all_goals
    obtain ⟨⟨signed, left⟩, hd, he⟩ := Option.map_eq_some_iff.mp h
    obtain ⟨-, rfl⟩ := Prod.mk.inj he
    exact Nat.le_succ_of_le (length_of_signedDigits? hd)

/-- A numeral is not empty. -/
theorem length_of_read? {cs rest : List Char} {n : Numeral}
    (h : read? cs = some (n, rest)) : rest.length < cs.length := by
  simp only [read?, Option.bind_eq_bind, Option.pure_def] at h
  obtain ⟨⟨whole, cs1⟩, h1, h⟩ := Option.bind_eq_some_iff.mp h
  obtain ⟨⟨fraction, cs2⟩, h2, h⟩ := Option.bind_eq_some_iff.mp h
  obtain ⟨⟨exponent, cs3⟩, h3, h⟩ := Option.bind_eq_some_iff.mp h
  obtain ⟨-, rfl⟩ := Prod.mk.inj (Option.some.inj h)
  have l1 := length_of_whole? h1
  have l2 := length_of_fraction? h2
  have l3 := length_of_exponent? h3
  have l0 : ∀ cs : List Char, (match cs with
      | '-' :: rest => (true, rest)
      | _ => (false, cs)).2.length ≤ cs.length := by
    intro cs
    split
    · exact Nat.le_succ _
    · exact Nat.le_refl _
  have := l0 cs
  simp only at l2 l3 ⊢
  omega

end Numeral

/-- The digits of a decimal without the zeros at their end. -/
def significantDigits (d : Decimal) : List Char :=
  ((Nat.toDigits 10 d.digits).reverse.dropWhile (· == '0')).reverse

/-- A decimal in positional notation or with an exponent, by the exponent of its
    leading digit. -/
def decimalText (d : Decimal) : List Char :=
  let digits := significantDigits d
  let leading := d.exponent + (Nat.toDigits 10 d.digits).length - 1
  if 0 ≤ leading ∧ leading ≤ 15 then
    let whole := leading.toNat + 1
    if digits.length ≤ whole then
      digits ++ List.replicate (whole - digits.length) '0' ++ ['.', '0']
    else digits.take whole ++ '.' :: digits.drop whole
  else if -5 ≤ leading ∧ leading < 0 then
    '0' :: '.' :: List.replicate ((-leading).toNat - 1) '0' ++ digits
  else
    let fraction := if digits.length ≤ 1 then [] else '.' :: digits.drop 1
    let sign := if leading < 0 then '-' else '+'
    digits.take 1 ++ fraction ++ 'e' :: sign :: Nat.toDigits 10 leading.natAbs

/-- The text of a binary fraction by its bits: the sign is the highest bit. -/
def bitsText (bits : Nat) : List Char :=
  let sign := if Nat.pow 2 63 ≤ bits then ['-'] else []
  if bits % Nat.pow 2 63 = 0 then sign ++ ['0', '.', '0']
  else sign ++ decimalText (Rounding.ofBits bits).shortest

/-- The text of a binary fraction.  One that is not finite has none of its own. -/
def floatText (x : Float) : List Char :=
  if x.isFinite then bitsText x.toBits.toNat else ['n', 'u', 'l', 'l']

/-- The text of an integer. -/
def intText (n : Int) : List Char :=
  if n < 0 then '-' :: Nat.toDigits 10 n.natAbs else Nat.toDigits 10 n.natAbs

end PackLint.Json
