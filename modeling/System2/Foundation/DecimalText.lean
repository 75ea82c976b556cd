import System2.Foundation.Numeral
import Mathlib.Tactic.IntervalCases

/-!
# What is written reads back

The decimal that `repr` chooses rounds to the value it was written for, as two
neighbouring values of the format are further apart than seventeen digits can
be wrong. A fixed-point text has the digits it was asked for and the value of
its coefficient.
-/

namespace Foundation

/-! ### Counting digits -/

theorem pow10_eq (e : ℤ) : pow10 e = 10 ^ e := by
  unfold pow10
  split_ifs with h
  · obtain ⟨n, rfl⟩ := Int.eq_ofNat_of_zero_le h
    simp
  · obtain ⟨n, hn⟩ := Int.eq_ofNat_of_zero_le (show 0 ≤ -e by omega)
    have he : e = -(n : ℤ) := by omega
    subst he
    rw [Rat.mkRat_eq_div]
    simp

theorem lt_pow_numDigits (n : ℕ) : n < 10 ^ numDigits n :=
  (Nat.length_toDigits_le_iff (by norm_num) Nat.length_toDigits_pos).mp le_rfl

theorem pow_numDigits_le {n : ℕ} (hn : 0 < n) : 10 ^ (numDigits n - 1) ≤ n := by
  rcases Nat.eq_zero_or_pos (numDigits n - 1) with h | h
  · simpa [h] using Nat.one_le_iff_ne_zero.mpr hn.ne'
  · by_contra hlt
    have hle : numDigits n ≤ numDigits n - 1 :=
      (Nat.length_toDigits_le_iff (by norm_num) h).mpr (not_le.mp hlt)
    omega

theorem pow_floorLog10_le {q : ℚ} (hq : 0 < q) : (10 : ℚ) ^ floorLog10 q ≤ q := by
  simp only [floorLog10, pow10_eq]
  split_ifs with h
  · have hnum : 0 < q.num.natAbs := Int.natAbs_pos.mpr (Rat.num_pos.mpr hq).ne'
    have hqn := eq_natAbs_num_div_den hq
    have hd : (0 : ℚ) < q.den := by exact_mod_cast q.den_pos
    have hlo : (10 : ℚ) ^ ((numDigits q.num.natAbs : ℤ) - 1) ≤ q.num.natAbs := by
      have hpos : 0 < numDigits q.num.natAbs := Nat.length_toDigits_pos
      rw [show (numDigits q.num.natAbs : ℤ) - 1 = ((numDigits q.num.natAbs - 1 : ℕ) : ℤ) by omega]
      exact_mod_cast pow_numDigits_le hnum
    have hhi : (q.den : ℚ) ≤ 10 ^ (numDigits q.den : ℤ) := by
      exact_mod_cast (lt_pow_numDigits q.den).le
    conv_rhs => rw [hqn]
    rw [le_div_iff₀ hd]
    generalize (numDigits q.num.natAbs : ℤ) = a at *
    generalize (numDigits q.den : ℤ) = b at *
    calc
      (10 : ℚ) ^ (a - b - 1) * q.den ≤ 10 ^ (a - b - 1) * 10 ^ b := by gcongr
      _ = 10 ^ (a - 1) := by rw [← zpow_add₀ (by norm_num)]; congr 1; ring
      _ ≤ q.num.natAbs := hlo
  · exact not_lt.mp h

/-! ### Neighbouring values -/

/-- Two different multiples of a unit are at least the unit apart. -/
theorem le_abs_sub_of_multiples {a b : ℤ} {w : ℚ} (hw : 0 < w) (hne : (b : ℚ) * w ≠ a * w) :
    w ≤ |(b : ℚ) * w - a * w| := by
  have hdiff : b - a ≠ 0 := fun h => hne (by rw [sub_eq_zero.mp h])
  have hone : (1 : ℚ) ≤ |((b - a : ℤ) : ℚ)| := by exact_mod_cast Int.one_le_abs hdiff
  rw [← sub_mul, abs_mul, abs_of_pos hw, ← Int.cast_sub]
  exact le_mul_of_one_le_left hw.le hone

/-- A multiple of a power of two is one of every lower power. -/
theorem multiple_of_le {e f : ℤ} (h : e ≤ f) (k : ℤ) :
    ∃ n : ℤ, (k : ℚ) * 2 ^ f = n * 2 ^ e := by
  obtain ⟨d, hd⟩ := Int.eq_ofNat_of_zero_le (sub_nonneg.mpr h)
  refine ⟨k * 2 ^ d, ?_⟩
  rw [show f = d + e by omega, zpow_add₀ two_ne_zero]
  push_cast
  rw [zpow_natCast]
  ring

/-- Two different values of the format are at least a part in `2 ^ 53` of either apart. -/
theorem Representable.gap {q v : ℚ} (hq : Representable q) (hv : Representable v) (hpos : 0 < q)
    (hne : v ≠ q) : q / 2 ^ 53 ≤ |v - q| := by
  obtain ⟨m, e, rfl, hm, -⟩ := hq
  obtain ⟨k, f, rfl, hk, -⟩ := hv
  have he : (0 : ℚ) < 2 ^ e := by positivity
  have hf : (0 : ℚ) < 2 ^ f := by positivity
  have hsize : (m : ℚ) * 2 ^ e ≤ 2 ^ 53 * 2 ^ e := by
    have hle : (m : ℚ) ≤ 2 ^ 53 := by exact_mod_cast (le_of_lt (abs_lt.mp hm).2)
    exact mul_le_mul_of_nonneg_right hle he.le
  rcases le_total e f with hef | hfe
  · obtain ⟨n, hn⟩ := multiple_of_le hef k
    rw [hn] at hne ⊢
    refine le_trans ?_ (le_abs_sub_of_multiples he hne)
    rw [div_le_iff₀ (by norm_num)]
    linarith
  · obtain ⟨n, hn⟩ := multiple_of_le hfe m
    rw [hn] at hne hpos ⊢
    rcases le_total ((n : ℚ) * 2 ^ f) (2 ^ 53 * 2 ^ f) with hsmall | hbig
    · refine le_trans ?_ (le_abs_sub_of_multiples hf hne)
      rw [div_le_iff₀ (by norm_num)]
      linarith
    · -- the other value lies below the binade of this one
      have hbelow : (k : ℚ) * 2 ^ f ≤ (2 ^ 53 - 1) * 2 ^ f := by
        have hle : (k : ℚ) ≤ 2 ^ 53 - 1 := by
          have : k ≤ 2 ^ 53 - 1 := by have := (abs_lt.mp hk).2; omega
          exact_mod_cast this
        exact mul_le_mul_of_nonneg_right hle hf.le
      refine le_trans ?_ (neg_le_abs _)
      rw [div_le_iff₀ (by norm_num)]
      nlinarith

/-! ### Negation -/

/-- Rounding to even is the same in both directions. -/
theorem roundHalfEven_neg (q : ℚ) : roundHalfEven (-q) = -roundHalfEven q := by
  by_cases hint : ∃ n : ℤ, q = n
  · obtain ⟨n, rfl⟩ := hint
    rw [roundHalfEven_int, ← Int.cast_neg, roundHalfEven_int]
  · have hlo : (⌊q⌋ : ℚ) < q := lt_of_le_of_ne (Int.floor_le q) fun h => hint ⟨⌊q⌋, h.symm⟩
    have hhi := Int.lt_floor_add_one q
    have hneg : ⌊-q⌋ = -⌊q⌋ - 1 := by
      rw [Int.floor_eq_iff]
      push_cast
      constructor
      · linarith
      · linarith
    have hfrac : -q - ((-⌊q⌋ - 1 : ℤ) : ℚ) = 1 - (q - ⌊q⌋) := by
      push_cast
      ring
    simp only [roundHalfEven, hneg, hfrac]
    generalize q - ⌊q⌋ = r
    rcases lt_trichotomy r (1 / 2) with hr | rfl | hr
    · rw [if_neg (by linarith), if_neg (fun h => by linarith [h.1]), if_pos hr]
      omega
    · norm_num
      split_ifs <;> omega
    · rw [if_pos (by linarith), if_neg (by linarith), if_neg (fun h => by linarith [h.1])]
      omega

theorem unitExp_neg (q : ℚ) : unitExp (-q) = unitExp q := by
  simp only [unitExp, abs_neg]

theorem nearest_neg (q : ℚ) : nearest (-q) = -nearest q := by
  by_cases hq : q = 0
  · simp [hq]
  · rw [nearest, nearest, if_neg hq, if_neg (neg_ne_zero.mpr hq), unitExp_neg, neg_div,
      roundHalfEven_neg]
    push_cast
    ring

/-! ### The shortest decimal -/

/-- Seventeen digits are wrong by less than half the way to the next value. -/
theorem nearest_nearestDecimal {q : ℚ} (hq : Representable q) (hpos : 0 < q) :
    nearest ((nearestDecimal q 17).1 * pow10 (nearestDecimal q 17).2) = q := by
  simp only [nearestDecimal, pow10_eq]
  set u : ℚ := 10 ^ (floorLog10 q - ((17 : ℕ) - 1 : ℤ)) with hu
  have hupos : 0 < u := by positivity
  have hunit : u * 10 ^ 16 ≤ q := by
    refine le_trans (le_of_eq ?_) (pow_floorLog10_le hpos)
    rw [hu, ← zpow_natCast, ← zpow_add₀ (by norm_num)]
    congr 1
    norm_num
  set d : ℚ := roundHalfEven (q / u) * u with hd
  have herror : |d - q| ≤ u / 2 := by
    have h := abs_roundHalfEven_sub (q / u)
    calc
      |d - q| = |(roundHalfEven (q / u) : ℚ) - q / u| * u := by
        rw [hd, ← abs_of_pos hupos, ← abs_mul, abs_of_pos hupos, sub_mul, div_mul_cancel₀ q hupos.ne']
      _ ≤ 1 / 2 * u := mul_le_mul_of_nonneg_right h hupos.le
      _ = u / 2 := by ring
  by_contra hne
  have hgap := hq.gap (representable_nearest d) hpos hne
  have hclose : |nearest d - d| ≤ |d - q| := by
    rw [abs_sub_comm d q]
    exact abs_nearest_sub_le hq
  have htri : |nearest d - q| ≤ u := by
    have := abs_sub_le (nearest d) d q
    linarith
  have hsmall : u < q / 2 ^ 53 := by
    rw [lt_div_iff₀ (by norm_num)]
    nlinarith
  linarith

/-- The digits that `repr` chooses read back to the value. -/
theorem nearest_shortestDecimal {q : ℚ} (hq : Representable q) (hpos : 0 < q) :
    nearest ((shortestDecimal q).1 * pow10 (shortestDecimal q).2) = q := by
  unfold shortestDecimal
  dsimp only
  cases hfind : List.find? _ _ with
  | none => exact nearest_nearestDecimal hq hpos
  | some d => simpa using List.find?_some hfind

namespace Binary64

theorem eq_of_eq {x y : Binary64} (h : x.eq y = true) : x = y := by
  match x, y, h with
  | .fin p _, .fin q _, h =>
      obtain rfl : p = q := by simpa using h
      rfl
  | .inf a, .inf b, h =>
      obtain rfl : a = b := by simpa [eq] using h
      rfl

theorem ofRat_eq_fin {p q : ℚ} {valid : nearest q = q ∧ |q| < overflowBound} (h : nearest p = q) :
    ofRat p = .fin q valid := by
  subst h
  rw [ofRat, dif_pos valid.2]

/-- The decimal that `repr` writes reads back to the value. -/
theorem ofRat_reprValue {x : Binary64} {v : ℚ} (h : x.reprValue? = some v) : ofRat v = x := by
  match x, h with
  | .fin q valid, h =>
      apply ofRat_eq_fin
      simp only [reprValue?] at h
      have hrep := representable_of_nearest_eq valid.1
      rcases lt_trichotomy q 0 with hq | hq | hq
      · rw [if_neg hq.ne, if_pos hq, abs_of_neg hq] at h
        obtain rfl := Option.some.inj h
        rw [nearest_neg, nearest_shortestDecimal hrep.neg (neg_pos.mpr hq), neg_neg]
      · rw [if_pos hq] at h
        obtain rfl := Option.some.inj h
        rw [nearest_zero, hq]
      · rw [if_neg hq.ne', if_neg (not_lt.mpr hq.le), abs_of_pos hq] at h
        obtain rfl := Option.some.inj h
        exact nearest_shortestDecimal hrep hq

theorem exists_reprValue {x : Binary64} (hfin : x.isFinite = true) :
    ∃ v, x.reprValue? = some v := by
  match x, hfin with
  | .fin q _, _ =>
      simp only [reprValue?]
      split_ifs
      · exact ⟨_, rfl⟩
      · exact ⟨_, rfl⟩
      · exact ⟨_, rfl⟩

/-- Rounding does not swap two numbers. -/
theorem lt_of_ofRat_lt {v w : ℚ} (h : (ofRat v).lt (ofRat w) = true) : v < w := by
  by_contra hle
  have hself := le_lt_trans (ofRat_mono (not_lt.mp hle)) h
  simp [lt_asymm hself] at hself

/-- The decimals of two values are in the order of the values. -/
theorem reprValue_lt_iff {x y : Binary64} {v w : ℚ} (hx : x.reprValue? = some v)
    (hy : y.reprValue? = some w) : x.lt y = true ↔ v < w := by
  constructor
  · intro h
    rw [← ofRat_reprValue hx, ← ofRat_reprValue hy] at h
    exact lt_of_ofRat_lt h
  · intro h
    have hmono := ofRat_mono h.le
    rw [ofRat_reprValue hx, ofRat_reprValue hy] at hmono
    refine (lt_or_eq_of_le hmono).resolve_right fun heq => ?_
    rw [eq_of_eq heq, hy] at hx
    exact h.ne (Option.some.inj hx).symm

end Binary64

/-! ### Fixed-point text -/

/-- The number of characters after the decimal point. -/
def fractionDigits (text : String) : ℕ := (text.toList.dropWhile (· ≠ '.')).length - 1

theorem asciiDigit?_of_isDigit {c : Char} (h : c.isDigit = true) :
    asciiDigit? c = some (c.toNat - '0'.toNat) := by
  obtain ⟨hlo, hhi⟩ := Char.isDigit_iff_toNat.mp h
  exact if_pos ⟨hlo, hhi⟩

theorem takeDigits_append {digits : List Char} (hdigits : ∀ c ∈ digits, c.isDigit = true)
    (acc count : ℕ) (rest : List Char) :
    takeDigits acc count (digits ++ rest) =
      takeDigits (Nat.ofDigitChars 10 digits acc) (count + digits.length) rest := by
  induction digits generalizing acc count with
  | nil => simp
  | cons c digits ih =>
      have hc := asciiDigit?_of_isDigit (hdigits c List.mem_cons_self)
      rw [List.cons_append, takeDigits, hc]
      simp only
      rw [ih (fun x hx => hdigits x (List.mem_cons_of_mem c hx)), Nat.ofDigitChars_cons,
        List.length_cons, mul_comm]
      congr 1
      omega

/-- The characters of a fixed-point text. -/
def isPlain (c : Char) : Bool := c.isDigit || c == '.' || c == '-'

/-- Such a character is read as it stands. -/
theorem isPlain_read {c : Char} (h : isPlain c = true) :
    (match decimalDigit? c with
      | some d => Char.ofNat (48 + d)
      | none => if isSpace c then ' ' else c) = c ∧ isSpace c = false ∧ c ≠ '_' := by
  simp only [isPlain, Bool.or_eq_true, beq_iff_eq] at h
  rcases h with (h | rfl) | rfl
  · obtain ⟨hlo, hhi⟩ := Char.isDigit_iff_toNat.mp h
    simp only [Char.reduceToNat] at hlo hhi
    rw [← Char.ofNat_toNat c]
    generalize c.toNat = n at *
    interval_cases n <;> decide +kernel
  · decide +kernel
  · decide +kernel

/-- Nothing is stripped from a text without white space. -/
theorem stripChars_eq {s : List Char} (h : ∀ c ∈ s, isSpace c = false) : stripChars s = s := by
  have hdrop : ∀ s : List Char, (∀ c ∈ s, isSpace c = false) → s.dropWhile isSpace = s := by
    intro s h
    cases s with
    | nil => rfl
    | cons c s => rw [List.dropWhile_cons_of_neg (by simp [h c List.mem_cons_self])]
  rw [stripChars, hdrop s h, hdrop _ (fun c hc => h c (List.mem_reverse.mp hc)), List.reverse_reverse]

/-- A text of plain characters is read as it stands. -/
theorem plainNumeral_of_isPlain {text : String} (h : ∀ c ∈ text.toList, isPlain c = true) :
    plainNumeral text = some text.toList := by
  have hmap : ∀ f : Char → Char, (∀ c, isPlain c = true → f c = c) →
      text.toList.map f = text.toList := by
    intro f hf
    conv_rhs => rw [← List.map_id text.toList]
    exact List.map_congr_left fun c hc => hf c (h c hc)
  have hplain : '_' ∉ text.toList := fun hc => (isPlain_read (h _ hc)).2.2 rfl
  unfold plainNumeral
  dsimp only
  rw [hmap]
  · rw [stripChars_eq fun c hc => (isPlain_read (h c hc)).2.1, if_neg (by simpa using hplain)]
  · exact fun c hc => (isPlain_read hc).1

/-- A fixed-point text is a sign, the digits before the point and those after it. -/
theorem exists_fixedPoint (coefficient : ℤ) (decimals : ℕ) :
    ∃ whole fraction : List Char, whole ≠ [] ∧ fraction.length = decimals ∧
      (∀ c ∈ whole ++ fraction, c.isDigit = true) ∧
      Nat.ofDigitChars 10 (whole ++ fraction) 0 = coefficient.natAbs ∧
      (fixedPoint coefficient decimals).toList = (if coefficient < 0 then ['-'] else []) ++
        (whole ++ (if decimals = 0 then [] else '.' :: fraction)) := by
  let digits := Nat.toDigits 10 coefficient.natAbs
  let padded := List.replicate (decimals + 1 - digits.length) '0' ++ digits
  have hdigits : 0 < digits.length := Nat.length_toDigits_pos
  have hlength : decimals < padded.length := by
    simp only [padded, List.length_append, List.length_replicate]
    omega
  have hwhole : (padded.take (padded.length - decimals)).length = padded.length - decimals := by
    rw [List.length_take]
    omega
  refine ⟨padded.take (padded.length - decimals), padded.drop (padded.length - decimals),
    ?_, ?_, ?_, ?_, ?_⟩
  · rw [← List.length_pos_iff_ne_nil, hwhole]
    omega
  · rw [List.length_drop]
    omega
  · rw [List.take_append_drop]
    intro c hc
    rcases List.mem_append.mp hc with hc | hc
    · rw [(List.mem_replicate.mp hc).2]
      decide
    · exact Nat.isDigit_of_mem_toDigits (by norm_num) (by norm_num) hc
  · rw [List.take_append_drop, Nat.ofDigitChars_append, Nat.ofDigitChars_replicate_zero, mul_zero,
      Nat.ofDigitChars_ten_toDigits]
  · simp only [fixedPoint, String.toList_append, String.toList_ofList]
    rw [hwhole]
    split_ifs <;> simp [padded, digits]

theorem isPlain_fixedPoint {coefficient : ℤ} {decimals : ℕ} :
    ∀ c ∈ (fixedPoint coefficient decimals).toList, isPlain c = true := by
  obtain ⟨whole, fraction, -, -, hdigits, -, htext⟩ := exists_fixedPoint coefficient decimals
  intro c hc
  have hdigit : ∀ c, c ∈ whole ∨ c ∈ fraction → isPlain c = true := by
    intro c hc
    simp [isPlain, hdigits c (List.mem_append.mpr hc)]
  rw [htext] at hc
  split_ifs at hc <;> simp at hc <;> grind [isPlain]

/-- The point is followed by as many digits as were asked for. -/
theorem fractionDigits_fixedPoint (coefficient : ℤ) (decimals : ℕ) :
    fractionDigits (fixedPoint coefficient decimals) = decimals := by
  obtain ⟨whole, fraction, -, hlength, hdigits, -, htext⟩ := exists_fixedPoint coefficient decimals
  have hpoint : ∀ c ∈ (if coefficient < 0 then ['-'] else []) ++ whole, decide (c ≠ '.') = true := by
    intro c hc
    rcases List.mem_append.mp hc with hc | hc
    · split_ifs at hc
      · rw [List.mem_singleton.mp hc]
        decide
      · cases hc
    · rw [decide_eq_true_iff]
      rintro rfl
      exact absurd (hdigits '.' (List.mem_append_left _ hc)) (by decide)
  rw [fractionDigits, htext, ← List.append_assoc, List.dropWhile_append_of_pos hpoint]
  split_ifs with hzero
  · simp [hzero]
  · simp [hlength]

/-- Digits, a point where there is a fraction, and its digits. -/
theorem takeNumber_digits {whole fraction : List Char} (hwhole : whole ≠ [])
    (hdigits : ∀ c ∈ whole ++ fraction, c.isDigit = true) :
    takeNumber (whole ++ (if fraction.length = 0 then [] else '.' :: fraction)) =
      some (Nat.ofDigitChars 10 (whole ++ fraction) 0, -(fraction.length : ℤ)) := by
  have hlength : whole.length ≠ 0 := by simpa using hwhole
  have hleft : ∀ c ∈ whole, c.isDigit = true := fun c hc => hdigits c (List.mem_append_left _ hc)
  have hright : ∀ c ∈ fraction, c.isDigit = true := fun c hc => hdigits c (List.mem_append_right _ hc)
  have hfraction : ∀ acc, takeDigits acc 0 fraction =
      (Nat.ofDigitChars 10 fraction acc, fraction.length, []) := by
    intro acc
    have h := takeDigits_append hright acc 0 []
    simpa [takeDigits] using h
  have hpoint : asciiDigit? '.' = none := by decide
  unfold takeNumber
  rw [takeDigits_append hleft, Nat.ofDigitChars_append]
  split_ifs with hzero
  · obtain rfl := List.length_eq_zero_iff.mp hzero
    simp [takeDigits, takeExponent, hlength]
  · simp [takeDigits, takeExponent, hlength, hpoint, hfraction]

/-- A fixed-point text has the value of its coefficient. -/
theorem readDecimal_fixedPoint (coefficient : ℤ) (decimals : ℕ) :
    readDecimal (fixedPoint coefficient decimals) = some ((coefficient : ℚ) / 10 ^ decimals) := by
  obtain ⟨whole, fraction, hwhole, rfl, hdigits, hvalue, htext⟩ :=
    exists_fixedPoint coefficient decimals
  have hnumber := takeNumber_digits hwhole hdigits
  rw [hvalue] at hnumber
  have hdivide : ∀ n : ℤ, (n : ℚ) * pow10 (-(fraction.length : ℤ)) = n / 10 ^ fraction.length := by
    intro n
    rw [pow10_eq, zpow_neg, zpow_natCast, div_eq_mul_inv]
  unfold readDecimal
  rw [plainNumeral_of_isPlain isPlain_fixedPoint, htext]
  simp only [Option.bind_eq_bind, Option.bind_some]
  by_cases hneg : coefficient < 0
  · have habs : -(coefficient.natAbs : ℤ) = coefficient := by omega
    simp only [if_pos hneg, List.cons_append, List.nil_append, takeSign, hnumber, Option.bind_some,
      if_true, habs, hdivide]
  · have habs : (coefficient.natAbs : ℤ) = coefficient := by omega
    have hsign : takeSign (whole ++ (if fraction.length = 0 then [] else '.' :: fraction)) =
        (false, whole ++ (if fraction.length = 0 then [] else '.' :: fraction)) := by
      cases whole with
      | nil => exact absurd rfl hwhole
      | cons c whole =>
          have hc := hdigits c List.mem_cons_self
          unfold takeSign
          split
          · rename_i heq
            cases heq
            cases hc
          · rename_i heq
            cases heq
            cases hc
          · rfl
    simp only [if_neg hneg, List.nil_append, hsign, hnumber, Option.bind_some,
      Bool.false_eq_true, if_false, habs, hdivide]

/-! ### The characters of a float -/

/-- The characters in the text of a float. -/
def isNumeral (c : Char) : Bool := c.isDigit || ['+', '-', '.', 'a', 'e', 'f', 'i', 'n'].contains c

/-- A text of such characters. -/
def Numeral (s : String) : Prop := ∀ c ∈ s.toList, isNumeral c = true

instance (s : String) : Decidable (Numeral s) := List.decidableBAll _ s.toList

theorem Numeral.append {s t : String} (hs : Numeral s) (ht : Numeral t) : Numeral (s ++ t) := by
  intro c hc
  rw [String.toList_append] at hc
  exact (List.mem_append.mp hc).elim (hs c) (ht c)

theorem numeral_ofList {l : List Char} (h : ∀ c ∈ l, isNumeral c = true) :
    Numeral (String.ofList l) := by
  intro c hc
  rw [String.toList_ofList] at hc
  exact h c hc

theorem isNumeral_toDigits {n : ℕ} : ∀ c ∈ Nat.toDigits 10 n, isNumeral c = true := by
  intro c hc
  rw [isNumeral, Nat.isDigit_of_mem_toDigits (by norm_num) (by norm_num) hc, Bool.true_or]

theorem isNumeral_zeros {n : ℕ} : ∀ c ∈ List.replicate n '0', isNumeral c = true := by
  intro c hc
  rw [(List.mem_replicate.mp hc).2]
  decide

theorem numeral_reprPositive (q : ℚ) : Numeral (reprPositive q) := by
  have htrim : ∀ c ∈ trimZeros (Nat.toDigits 10 (shortestDecimal q).1.natAbs),
      isNumeral c = true := by
    intro c hc
    exact isNumeral_toDigits c
      (List.mem_reverse.mp ((List.dropWhile_sublist _).subset (List.mem_reverse.mp hc)))
  unfold reprPositive
  dsimp only
  generalize trimZeros (Nat.toDigits 10 (shortestDecimal q).1.natAbs) = digits at htrim
  generalize ((Nat.toDigits 10 (shortestDecimal q).1.natAbs).length : ℤ) +
    (shortestDecimal q).2 = point
  have hpadded : ∀ n, ∀ c ∈ digits ++ List.replicate n '0', isNumeral c = true :=
    fun n c hc => (List.mem_append.mp hc).elim (htrim c) (isNumeral_zeros c)
  have hexponent : ∀ n : ℕ, Numeral (toString n) := by
    intro n
    rw [Nat.toString_eq_ofList_toDigits]
    exact numeral_ofList isNumeral_toDigits
  by_cases hplain : -4 < point ∧ point ≤ 16
  · rw [if_pos hplain]
    by_cases hbelow : point ≤ 0
    · rw [if_pos hbelow]
      refine Numeral.append (by decide) (numeral_ofList fun c hc => ?_)
      exact (List.mem_append.mp hc).elim (isNumeral_zeros c) (htrim c)
    · rw [if_neg hbelow]
      refine ((numeral_ofList fun c hc => hpadded _ c (List.mem_of_mem_take hc)).append
        (by decide)).append ?_
      split_ifs
      · decide
      · exact numeral_ofList fun c hc => hpadded _ c (List.mem_of_mem_drop hc)
  · rw [if_neg hplain]
    refine (((numeral_ofList fun c hc => htrim c (List.mem_of_mem_take hc)).append ?_).append
      ?_).append ?_
    · split_ifs
      · decide
      · exact Numeral.append (by decide)
          (numeral_ofList fun c hc => htrim c (List.mem_of_mem_drop hc))
    · split_ifs
      · decide
      · decide
    · split_ifs
      · exact Numeral.append (by decide) (hexponent _)
      · exact hexponent _

theorem numeral_repr (x : Binary64) : Numeral x.repr := by
  match x with
  | .nan => decide
  | .inf negative => cases negative <;> decide
  | .fin q _ =>
      unfold Binary64.repr
      dsimp only
      split_ifs
      · decide
      · exact Numeral.append (by decide) (numeral_reprPositive _)
      · exact numeral_reprPositive _

end Foundation
