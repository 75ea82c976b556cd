import System2.Foundation.Binary64

/-!
# Decimal text of binary64 values

Reading follows Python's `int` and `float` on text: surrounding white space, a
sign, any decimal digits of Unicode, single underscores between digits, and for
floats a fraction, an exponent, and the words for the infinities and for NaN. Writing follows
Python's `repr`: the shortest digits that read back to the same value.
-/

namespace Foundation

/-! ### Characters -/

/-- The first code points of the blocks of ten decimal digits of Unicode. -/
def digitBlocks : List Nat :=
  [48, 1632, 1776, 1984, 2406, 2534, 2662, 2790, 2918, 3046, 3174, 3302, 3430, 3558, 3664,
   3792, 3872, 4160, 4240, 6112, 6160, 6470, 6608, 6784, 6800, 6992, 7088, 7232, 7248, 42528,
   43216, 43264, 43472, 43504, 43600, 44016, 65296, 66720, 68912, 69734, 69872, 69942, 70096,
   70384, 70736, 70864, 71248, 71360, 71472, 71904, 72016, 72784, 73040, 73120, 73552, 92768,
   92864, 93008, 120782, 120792, 120802, 120812, 120822, 123200, 123632, 124144, 125264, 130032]

/-- The value of a decimal digit of any script. -/
def decimalDigit? (c : Char) : Option Nat :=
  (digitBlocks.find? fun b => b ≤ c.toNat ∧ c.toNat < b + 10).map fun b => c.toNat - b

/-- The value of an ASCII digit. -/
def asciiDigit? (c : Char) : Option Nat :=
  if '0' ≤ c ∧ c ≤ '9' then some (c.toNat - '0'.toNat) else none

/-- The white space that `str.isspace` accepts. -/
def isSpace (c : Char) : Bool :=
  let n := c.toNat
  (9 ≤ n && n ≤ 13) || (28 ≤ n && n ≤ 32) || n == 0x85 || n == 0xA0 || n == 0x1680 ||
    (0x2000 ≤ n && n ≤ 0x200A) || n == 0x2028 || n == 0x2029 || n == 0x202F || n == 0x205F ||
    n == 0x3000

/-- The upper case of a character, for every character whose upper case has an
ASCII letter in it. The others are left alone, as no text is compared with them. -/
def upperChar (c : Char) : List Char :=
  match c.toNat with
  | 0xDF => ['S', 'S']
  | 0x131 => ['I']
  | 0x149 => [Char.ofNat 0x2BC, 'N']
  | 0x17F => ['S']
  | 0x1F0 => ['J', Char.ofNat 0x30C]
  | 0x1E96 => ['H', Char.ofNat 0x331]
  | 0x1E97 => ['T', Char.ofNat 0x308]
  | 0x1E98 => ['W', Char.ofNat 0x30A]
  | 0x1E99 => ['Y', Char.ofNat 0x30A]
  | 0x1E9A => ['A', Char.ofNat 0x2BE]
  | 0xFB00 => ['F', 'F']
  | 0xFB01 => ['F', 'I']
  | 0xFB02 => ['F', 'L']
  | 0xFB03 => ['F', 'F', 'I']
  | 0xFB04 => ['F', 'F', 'L']
  | 0xFB05 => ['S', 'T']
  | 0xFB06 => ['S', 'T']
  | _ => [c.toUpper]

/-- Python's `str.upper`. -/
def upper (s : String) : String := String.ofList (s.toList.flatMap upperChar)

/-- The lower case of a character, likewise. -/
def lowerChar (c : Char) : List Char :=
  match c.toNat with
  | 0x130 => ['i', Char.ofNat 0x307]
  | 0x212A => ['k']
  | _ => [c.toLower]

/-- Python's `str.lower`. -/
def lower (s : String) : String := String.ofList (s.toList.flatMap lowerChar)

/-- Python's `str.strip` on characters. -/
def stripChars (s : List Char) : List Char :=
  ((s.dropWhile isSpace).reverse.dropWhile isSpace).reverse

/-! ### Powers of ten -/

/-- `10 ^ e` by one natural power, so that it evaluates. -/
def pow10 (e : ℤ) : ℚ :=
  if 0 ≤ e then ((10 ^ e.toNat : ℕ) : ℚ) else mkRat 1 (10 ^ (-e).toNat)

/-- The number of decimal digits of a natural number. -/
def numDigits (n : ℕ) : ℕ := (Nat.toDigits 10 n).length

/-- `m * 10 ^ e` rounded once. The two guards keep a huge exponent from being
computed: beyond them the result is an infinity or zero. -/
def ofDecimal (m : ℤ) (e : ℤ) : Binary64 :=
  let size := (numDigits m.natAbs : ℤ) + e
  if m = 0 ∨ size < -400 then .zero
  else if 400 < size then .inf (decide (m < 0))
  else .ofRat (m * pow10 e)

/-! ### Reading -/

/-- Underscores stand only between two ASCII digits; they are dropped. -/
def dropUnderscores (prev : Char) : List Char → Option (List Char)
  | [] => if prev = '_' then none else some []
  | c :: rest =>
      if c = '_' then
        if (asciiDigit? prev).isSome then dropUnderscores c rest else none
      else if prev = '_' ∧ (asciiDigit? c).isNone then none
      else (dropUnderscores c rest).map (c :: ·)

/-- The value of the leading ASCII digits after `acc`, how many there are, and the rest. -/
def takeDigits (acc count : ℕ) : List Char → ℕ × ℕ × List Char
  | [] => (acc, count, [])
  | c :: rest =>
      match asciiDigit? c with
      | some d => takeDigits (acc * 10 + d) (count + 1) rest
      | none => (acc, count, c :: rest)

/-- An optional sign and the rest. -/
def takeSign : List Char → Bool × List Char
  | '-' :: rest => (true, rest)
  | '+' :: rest => (false, rest)
  | s => (false, s)

/-- An exponent that ends the text, or nothing at all. -/
def takeExponent : List Char → Option ℤ
  | [] => some 0
  | c :: rest =>
      if c = 'e' ∨ c = 'E' then
        let (negative, rest) := takeSign rest
        match takeDigits 0 0 rest with
        | (n, count, []) => if count = 0 then none else some (if negative then -n else n)
        | _ => none
      else none

/-- A decimal literal without a sign: significand and exponent. -/
def takeNumber (s : List Char) : Option (ℕ × ℤ) :=
  let (whole, wholeCount, rest) := takeDigits 0 0 s
  let (m, fraction, rest) :=
    match rest with
    | '.' :: rest => takeDigits whole 0 rest
    | rest => (whole, 0, rest)
  if wholeCount + fraction = 0 then none
  else (takeExponent rest).map fun e => (m, e - fraction)

/-- A numeric text with ASCII digits, without the white space around it and without
underscores. -/
def plainNumeral (text : String) : Option (List Char) :=
  let ascii := text.toList.map fun c =>
    match decimalDigit? c with
    | some d => Char.ofNat (48 + d)
    | none => if isSpace c then ' ' else c
  let stripped := stripChars ascii
  if stripped.contains '_' then dropUnderscores ' ' stripped else some stripped

/-- Python's `int` on text; `none` where it raises `ValueError`. -/
def readInt (text : String) : Option ℤ := do
  let (negative, body) := takeSign (← plainNumeral text)
  match takeDigits 0 0 body with
  | (n, count, []) => if count = 0 ∨ 4300 < count then none else some (if negative then -n else n)
  | _ => none

/-- The exact value of a decimal numeral; `none` for a text that is none. -/
def readDecimal (text : String) : Option ℚ := do
  let (negative, body) := takeSign (← plainNumeral text)
  let (m, e) ← takeNumber body
  some ((if negative then -m else m : ℤ) * pow10 e)

/-- Python's `float` on text; `none` where it raises `ValueError`. -/
def readFloat (text : String) : Option Binary64 := do
  let (negative, body) := takeSign (← plainNumeral text)
  let word := String.ofList (body.map Char.toLower)
  if word = "inf" ∨ word = "infinity" then some (.inf negative)
  else if word = "nan" then some .nan
  else
    let (m, e) ← takeNumber body
    some (ofDecimal (if negative then -m else m) e)

/-- Within its guards a decimal is rounded once. -/
theorem ofDecimal_eq_ofRat {m e : ℤ} (hfin : (ofDecimal m e).isFinite = true)
    (hzero : (ofDecimal m e).eq .zero = false) : ofDecimal m e = .ofRat (m * pow10 e) := by
  simp only [ofDecimal] at hfin hzero ⊢
  split_ifs at hfin hzero ⊢
  · cases hzero
  · cases hfin
  · rfl

/-- A finite nonzero float read from a text is the rounding of the text's exact value. -/
theorem readFloat_eq_ofRat {text : String} {x : Binary64} (h : readFloat text = some x)
    (hfin : x.isFinite = true) (hzero : x.eq .zero = false) :
    ∃ q, readDecimal text = some q ∧ x = .ofRat q := by
  unfold readFloat readDecimal at *
  cases hplain : plainNumeral text with
  | none =>
      rw [hplain] at h
      cases h
  | some digits =>
      simp only [hplain, Option.bind_eq_bind, Option.bind_some] at h ⊢
      split at h
      · cases h
        cases hfin
      · split at h
        · cases h
          cases hfin
        · cases hnumber : takeNumber (takeSign digits).2 with
          | none =>
              rw [hnumber] at h
              cases h
          | some number =>
              simp only [hnumber, Option.bind_some] at h ⊢
              cases h
              exact ⟨_, rfl, ofDecimal_eq_ofRat hfin hzero⟩

/-! ### Writing -/

/-- The decimal logarithm of a positive rational, rounded down. -/
def floorLog10 (q : ℚ) : ℤ :=
  let e : ℤ := (numDigits q.num.natAbs : ℤ) - numDigits q.den
  if q < pow10 e then e - 1 else e

/-- The decimal with `digits` significant digits that is nearest to `q`. -/
def nearestDecimal (q : ℚ) (digits : ℕ) : ℤ × ℤ :=
  let e := floorLog10 q - (digits - 1 : ℤ)
  (roundHalfEven (q / pow10 e), e)

/-- The shortest decimal that reads back to a positive finite value; seventeen
digits always do. The neighbours count because at a power of two the values
below are closer together than those above. -/
def shortestDecimal (q : ℚ) : ℤ × ℤ :=
  let candidates := (List.range 17).flatMap fun n =>
    let (m, e) := nearestDecimal q (n + 1)
    [(m, e), (m + 1, e), (m - 1, e)]
  (candidates.find? fun d => nearest (d.1 * pow10 d.2) = q).getD (nearestDecimal q 17)

/-- Drop the trailing zeros of a digit string, least significant first. -/
def trimZeros (digits : List Char) : List Char :=
  ((digits.reverse.dropWhile (· = '0')).reverse)

/-- Python's `repr` of a positive finite value. -/
def reprPositive (q : ℚ) : String :=
  let (m, e) := shortestDecimal q
  let all := Nat.toDigits 10 m.natAbs
  let digits := trimZeros all
  let point : ℤ := all.length + e
  if -4 < point ∧ point ≤ 16 then
    if point ≤ 0 then "0." ++ String.ofList (List.replicate (-point).toNat '0' ++ digits)
    else
      let k := point.toNat
      let padded := digits ++ List.replicate (k - digits.length) '0'
      let fraction := padded.drop k
      String.ofList (padded.take k) ++ "." ++
        (if fraction.isEmpty then "0" else String.ofList fraction)
  else
    let x := point - 1
    let exponent := toString x.natAbs
    String.ofList (digits.take 1) ++
      (if digits.length ≤ 1 then "" else "." ++ String.ofList (digits.drop 1)) ++
      (if x < 0 then "e-" else "e+") ++ (if exponent.length < 2 then "0" ++ exponent else exponent)

/-- Python's `repr` of a float. -/
def Binary64.repr : Binary64 → String
  | .nan => "nan"
  | .inf negative => if negative then "-inf" else "inf"
  | .fin q _ =>
      if q = 0 then "0.0"
      else if q < 0 then "-" ++ reprPositive (-q)
      else reprPositive q

/-- The exact value of the text that `repr` writes for a finite float. -/
def Binary64.reprValue? : Binary64 → Option ℚ
  | .fin q _ =>
      if q = 0 then some 0
      else
        let (m, e) := shortestDecimal |q|
        some (if q < 0 then -(m * pow10 e) else m * pow10 e)
  | _ => none

/-- A multiple of `10 ^ -decimals` in fixed-point notation. -/
def fixedPoint (coefficient : ℤ) (decimals : ℕ) : String :=
  let digits := Nat.toDigits 10 coefficient.natAbs
  let padded := List.replicate (decimals + 1 - digits.length) '0' ++ digits
  let whole := padded.take (padded.length - decimals)
  (if coefficient < 0 then "-" else "") ++ String.ofList whole ++
    (if decimals = 0 then "" else "." ++ String.ofList (padded.drop whole.length))

/-- Python's `f` format of a float with a number of decimals. -/
def Binary64.fixedText (x : Binary64) (decimals : ℕ) : String :=
  match x with
  | .nan => "nan"
  | .inf negative => if negative then "-inf" else "inf"
  | .fin q _ => fixedPoint (roundHalfEven (q * 10 ^ decimals)) decimals

end Foundation
