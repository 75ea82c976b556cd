import Mathlib.Algebra.Order.Field.Power
import Mathlib.Algebra.Order.Floor.Ring
import Mathlib.Data.Rat.Floor
import Mathlib.Tactic.Linarith
import Mathlib.Tactic.Positivity
import Mathlib.Tactic.Ring
import Mathlib.Tactic.FieldSimp
import Mathlib.Tactic.NormNum

/-!
# Binary64 numbers

A binary64 value is a NaN, an infinity or a finite rational that is its own
rounding, so a value that the format cannot hold cannot be written down.
Arithmetic computes the exact rational result and rounds it once, to nearest
with ties to even, as IEEE 754 prescribes.

## Implementation notes

The two zeros are one value here. They compare equal, and no operation below
tells them apart.
-/

namespace Foundation

/-! ### Powers of two and the binary logarithm -/

/-- `2 ^ e` by one natural power, so that it evaluates. -/
def pow2 (e : ℤ) : ℚ :=
  if 0 ≤ e then ((2 ^ e.toNat : ℕ) : ℚ) else mkRat 1 (2 ^ (-e).toNat)

theorem pow2_eq (e : ℤ) : pow2 e = 2 ^ e := by
  unfold pow2
  split_ifs with h
  · obtain ⟨n, rfl⟩ := Int.eq_ofNat_of_zero_le h
    simp
  · obtain ⟨n, hn⟩ := Int.eq_ofNat_of_zero_le (show 0 ≤ -e by omega)
    have he : e = -(n : ℤ) := by omega
    subst he
    rw [Rat.mkRat_eq_div]
    simp

/-- The binary logarithm of a positive rational, rounded down. -/
def floorLog2 (q : ℚ) : ℤ :=
  let e : ℤ := (q.num.natAbs.log2 : ℤ) - q.den.log2
  if q < pow2 e then e - 1 else e

theorem eq_natAbs_num_div_den {q : ℚ} (hq : 0 < q) : q = (q.num.natAbs : ℚ) / q.den := by
  have habs : ((q.num.natAbs : ℤ) : ℚ) = (q.num : ℚ) := by
    exact_mod_cast Int.natAbs_of_nonneg (Rat.num_pos.mpr hq).le
  calc
    q = (q.num : ℚ) / q.den := (Rat.num_div_den q).symm
    _ = (q.num.natAbs : ℚ) / q.den := by rw [← habs, Int.cast_natCast]

theorem floorLog2_bounds {q : ℚ} (hq : 0 < q) :
    (2 : ℚ) ^ (((q.num.natAbs.log2 : ℤ) - q.den.log2) - 1) ≤ q ∧
      q < (2 : ℚ) ^ (((q.num.natAbs.log2 : ℤ) - q.den.log2) + 1) := by
  have hnum : 0 < q.num := Rat.num_pos.mpr hq
  have hn : q.num.natAbs ≠ 0 := by omega
  have hqn := eq_natAbs_num_div_den hq
  have hd : (0 : ℚ) < q.den := by exact_mod_cast q.den_pos
  have n1 : (2 : ℚ) ^ (q.num.natAbs.log2 : ℤ) ≤ q.num.natAbs := by
    exact_mod_cast Nat.log2_self_le hn
  have n2 : (q.num.natAbs : ℚ) < 2 ^ ((q.num.natAbs.log2 : ℤ) + 1) := by
    exact_mod_cast (Nat.lt_log2_self (n := q.num.natAbs))
  have d1 : (2 : ℚ) ^ (q.den.log2 : ℤ) ≤ q.den := by
    exact_mod_cast Nat.log2_self_le q.den_nz
  have d2 : (q.den : ℚ) < 2 ^ ((q.den.log2 : ℤ) + 1) := by
    exact_mod_cast (Nat.lt_log2_self (n := q.den))
  generalize (q.num.natAbs.log2 : ℤ) = a at *
  generalize (q.den.log2 : ℤ) = b at *
  rw [hqn]
  constructor
  · rw [le_div_iff₀ hd]
    calc
      (2 : ℚ) ^ (a - b - 1) * q.den ≤ 2 ^ (a - b - 1) * 2 ^ (b + 1) := by gcongr
      _ = 2 ^ a := by rw [← zpow_add₀ two_ne_zero]; congr 1; ring
      _ ≤ q.num.natAbs := n1
  · rw [div_lt_iff₀ hd]
    calc
      (q.num.natAbs : ℚ) < 2 ^ (a + 1) := n2
      _ = 2 ^ (a - b + 1) * 2 ^ b := by rw [← zpow_add₀ two_ne_zero]; congr 1; ring
      _ ≤ 2 ^ (a - b + 1) * q.den := by gcongr

theorem floorLog2_spec {q : ℚ} (hq : 0 < q) :
    (2 : ℚ) ^ floorLog2 q ≤ q ∧ q < (2 : ℚ) ^ (floorLog2 q + 1) := by
  obtain ⟨hlo, hhi⟩ := floorLog2_bounds hq
  simp only [floorLog2, pow2_eq]
  split_ifs with h
  · exact ⟨hlo, by simpa using h⟩
  · exact ⟨not_lt.mp h, hhi⟩

/-! ### Rounding to an integer -/

/-- The integer nearest to `q`; halfway cases go to the even one. -/
def roundHalfEven (q : ℚ) : ℤ :=
  let f := ⌊q⌋
  if q - f < 1 / 2 then f
  else if q - f = 1 / 2 ∧ f % 2 = 0 then f
  else f + 1

theorem roundHalfEven_int (n : ℤ) : roundHalfEven n = n := by
  simp [roundHalfEven]

theorem roundHalfEven_le {q : ℚ} {n : ℤ} (h : q ≤ n) : roundHalfEven q ≤ n := by
  by_cases heq : q = n
  · subst heq
    exact (roundHalfEven_int n).le
  · have hlt : q < n := lt_of_le_of_ne h heq
    have hf : ⌊q⌋ < n := Int.floor_lt.mpr hlt
    simp only [roundHalfEven]
    split_ifs <;> omega

theorem le_roundHalfEven {q : ℚ} {n : ℤ} (h : (n : ℚ) ≤ q) : n ≤ roundHalfEven q := by
  have hf : n ≤ ⌊q⌋ := Int.le_floor.mpr h
  simp only [roundHalfEven]
  split_ifs <;> omega

theorem abs_roundHalfEven_sub (q : ℚ) : |(roundHalfEven q : ℚ) - q| ≤ 1 / 2 := by
  have hlo := Int.floor_le q
  have hhi := Int.lt_floor_add_one q
  simp only [roundHalfEven]
  split_ifs with hbelow hhalf
  · rw [abs_le]
    constructor
    · linarith
    · linarith
  · rw [abs_le]
    constructor
    · linarith [hhalf.1]
    · linarith
  · push_cast
    rw [abs_le]
    constructor
    · linarith
    · linarith

/-- No integer is nearer. -/
theorem abs_roundHalfEven_sub_le (q : ℚ) (n : ℤ) :
    |(roundHalfEven q : ℚ) - q| ≤ |(n : ℚ) - q| := by
  by_cases hn : n = roundHalfEven q
  · rw [hn]
  · have hone : (1 : ℚ) ≤ |(n : ℚ) - roundHalfEven q| := by
      exact_mod_cast Int.one_le_abs (sub_ne_zero.mpr hn)
    have htri : |(n : ℚ) - roundHalfEven q| ≤ |(n : ℚ) - q| + |(roundHalfEven q : ℚ) - q| := by
      rw [abs_sub_comm (roundHalfEven q : ℚ) q]
      exact abs_sub_le _ _ _
    linarith [abs_roundHalfEven_sub q]

/-! ### Rounding to the format -/

/-- The exponent of the last place of a number of the size of `q`. -/
def unitExp (q : ℚ) : ℤ := max (floorLog2 |q| - 52) (-1074)

/-- The multiple of the last place that is nearest to `q`. -/
def nearest (q : ℚ) : ℚ :=
  if q = 0 then 0 else roundHalfEven (q / pow2 (unitExp q)) * pow2 (unitExp q)

/-- A rational with a 53-bit significand above the subnormal unit. -/
def Representable (v : ℚ) : Prop :=
  ∃ m e : ℤ, v = m * 2 ^ e ∧ |m| < 2 ^ 53 ∧ -1074 ≤ e

@[simp] theorem nearest_zero : nearest 0 = 0 := by simp [nearest]

theorem representable_zero : Representable 0 := ⟨0, 0, by simp, by norm_num, by norm_num⟩

theorem abs_lt_pow_unitExp {q : ℚ} (hq : q ≠ 0) : |q| < 2 ^ (unitExp q + 53) := by
  have hpos : 0 < |q| := abs_pos.mpr hq
  refine lt_of_lt_of_le (floorLog2_spec hpos).2 ?_
  apply zpow_le_zpow_right₀ (by norm_num)
  have : floorLog2 |q| - 52 ≤ unitExp q := le_max_left _ _
  omega

/-- A significand that rounds up to `2 ^ 53` moves to the next binade. -/
theorem representable_of_le {m e : ℤ} (hm : |m| ≤ 2 ^ 53) (he : -1074 ≤ e) :
    Representable (m * 2 ^ e) := by
  rcases lt_or_eq_of_le hm with h | h
  · exact ⟨m, e, rfl, h, he⟩
  · have hcase : m = 2 ^ 53 ∨ m = -2 ^ 53 := eq_or_eq_neg_of_abs_eq h
    rcases hcase with rfl | rfl
    · refine ⟨2 ^ 52, e + 1, ?_, by norm_num, by omega⟩
      rw [zpow_add₀ two_ne_zero]
      push_cast
      ring
    · refine ⟨-2 ^ 52, e + 1, ?_, by norm_num, by omega⟩
      rw [zpow_add₀ two_ne_zero]
      push_cast
      ring

theorem representable_nearest (q : ℚ) : Representable (nearest q) := by
  by_cases hq : q = 0
  · simpa [hq] using representable_zero
  simp only [nearest, if_neg hq, pow2_eq]
  apply representable_of_le _ (le_max_right _ _)
  have hu : (0 : ℚ) < 2 ^ unitExp q := by positivity
  have habs : |q / 2 ^ unitExp q| ≤ ((2 ^ 53 : ℤ) : ℚ) := by
    rw [abs_div, abs_of_pos hu, div_le_iff₀ hu]
    refine (abs_lt_pow_unitExp hq).le.trans_eq ?_
    rw [add_comm, zpow_add₀ two_ne_zero]
    norm_num
  obtain ⟨hlo, hhi⟩ := abs_le.mp habs
  refine abs_le.mpr ⟨?_, roundHalfEven_le hhi⟩
  exact le_roundHalfEven (by push_cast at hlo ⊢; exact hlo)

/-- A number whose own last place is not coarser than `q`'s is a multiple of
the last place of `q`. -/
theorem Representable.multiple {v q : ℚ} (hv : Representable v) (hq : 2 ^ (unitExp q + 52) ≤ |v| ∨
    unitExp q = -1074) : ∃ n : ℤ, v = n * 2 ^ unitExp q := by
  obtain ⟨m, e, rfl, hm, he⟩ := hv
  have hle : unitExp q ≤ e := by
    rcases hq with hbig | hmin
    · by_contra hlt
      have hmq : |(m : ℚ)| < 2 ^ (53 : ℤ) := by exact_mod_cast hm
      have hpe : (0 : ℚ) < 2 ^ e := by positivity
      have hsize : |(m : ℚ) * 2 ^ e| < 2 ^ (53 + e) := by
        rw [abs_mul, abs_of_pos hpe, zpow_add₀ two_ne_zero]
        exact mul_lt_mul_of_pos_right hmq hpe
      have hle : (2 : ℚ) ^ (53 + e) ≤ 2 ^ (unitExp q + 52) :=
        zpow_le_zpow_right₀ (by norm_num) (by omega)
      exact absurd hbig (not_le.mpr (lt_of_lt_of_le hsize hle))
    · omega
  obtain ⟨k, hk⟩ := Int.eq_ofNat_of_zero_le (sub_nonneg.mpr hle)
  refine ⟨m * 2 ^ k, ?_⟩
  have he' : e = k + unitExp q := by omega
  rw [he', zpow_add₀ two_ne_zero]
  push_cast
  rw [zpow_natCast]
  ring

theorem pow_unitExp_le {q : ℚ} (hq : q ≠ 0) (h : unitExp q ≠ -1074) :
    (2 : ℚ) ^ (unitExp q + 52) ≤ |q| := by
  have hu : unitExp q = floorLog2 |q| - 52 := by
    rcases max_choice (floorLog2 |q| - 52) (-1074) with h' | h'
    · exact h'
    · exact absurd h' h
  rw [hu, sub_add_cancel]
  exact (floorLog2_spec (abs_pos.mpr hq)).1

/-- No multiple of the last place is nearer. -/
theorem abs_nearest_sub_le_multiple {q : ℚ} (hq : q ≠ 0) (n : ℤ) :
    |nearest q - q| ≤ |n * 2 ^ unitExp q - q| := by
  have hu : (0 : ℚ) < 2 ^ unitExp q := by positivity
  have hscale : ∀ m : ℤ, |m * 2 ^ unitExp q - q| =
      |(m : ℚ) - q / 2 ^ unitExp q| * 2 ^ unitExp q := by
    intro m
    rw [← abs_of_pos hu, ← abs_mul, abs_of_pos hu, sub_mul, div_mul_cancel₀ q hu.ne']
  rw [nearest, if_neg hq, pow2_eq, hscale, hscale]
  exact mul_le_mul_of_nonneg_right (abs_roundHalfEven_sub_le _ n) hu.le

/-- No representable number is nearer. -/
theorem abs_nearest_sub_le {q v : ℚ} (hv : Representable v) : |nearest q - q| ≤ |v - q| := by
  by_cases hq : q = 0
  · simp [hq]
  by_cases hmult : 2 ^ (unitExp q + 52) ≤ |v| ∨ unitExp q = -1074
  · obtain ⟨n, rfl⟩ := hv.multiple hmult
    exact abs_nearest_sub_le_multiple hq n
  · -- `v` lies below the binade of `q`, and the end of the binade is between them
    obtain ⟨hsmall, hmin⟩ := not_or.mp hmult
    have hbig := pow_unitExp_le hq hmin
    obtain ⟨hlo, hhi⟩ := abs_lt.mp (not_le.mp hsmall)
    have hend : (2 : ℚ) ^ (unitExp q + 52) = ((2 ^ 52 : ℤ) : ℚ) * 2 ^ unitExp q := by
      rw [zpow_add₀ two_ne_zero, mul_comm]
      norm_num
    rcases le_abs.mp hbig with hpos | hneg
    · refine (abs_nearest_sub_le_multiple hq (2 ^ 52)).trans ?_
      rw [← hend, abs_of_nonpos (by linarith), abs_of_nonpos (by linarith)]
      linarith
    · refine (abs_nearest_sub_le_multiple hq (-2 ^ 52)).trans ?_
      rw [Int.cast_neg, neg_mul, ← hend, abs_of_nonneg (by linarith),
        abs_of_nonneg (by linarith)]
      linarith

/-- Rounding never moves a number past a representable one above it. -/
theorem nearest_le {q a : ℚ} (ha : Representable a) (h : q ≤ a) : nearest q ≤ a := by
  have hclose := (le_abs_self _).trans (abs_nearest_sub_le (q := q) ha)
  rw [abs_of_nonneg (by linarith)] at hclose
  linarith

/-- Rounding never moves a number past a representable one below it. -/
theorem le_nearest {q a : ℚ} (ha : Representable a) (h : a ≤ q) : a ≤ nearest q := by
  have hclose := (neg_le_abs _).trans (abs_nearest_sub_le (q := q) ha)
  rw [abs_of_nonpos (by linarith)] at hclose
  linarith

/-- Rounding keeps the order: two results that changed places would both be nearer to
the other number. -/
theorem nearest_mono {p q : ℚ} (h : p ≤ q) : nearest p ≤ nearest q := by
  by_contra hlt
  have hp := abs_nearest_sub_le (q := p) (representable_nearest q)
  have hq := abs_nearest_sub_le (q := q) (representable_nearest p)
  have hmid : (nearest p + nearest q) / 2 ≤ p := by
    rcases le_total (nearest q) p with hle | hge
    · rw [abs_of_nonpos (by linarith : nearest q - p ≤ 0)] at hp
      linarith [(le_abs_self (nearest p - p)).trans hp]
    · linarith [nearest_le (representable_nearest q) hge]
  have hmid' : q ≤ (nearest p + nearest q) / 2 := by
    rcases le_total q (nearest p) with hle | hge
    · rw [abs_of_nonneg (by linarith : 0 ≤ nearest p - q)] at hq
      linarith [(neg_le_abs (nearest q - q)).trans hq]
    · linarith [le_nearest (representable_nearest p) hge]
  obtain rfl : p = q := by linarith
  exact hlt le_rfl

/-- A representable number is its own rounding. -/
theorem Representable.nearest_eq {v : ℚ} (hv : Representable v) : nearest v = v :=
  le_antisymm (nearest_le hv le_rfl) (le_nearest hv le_rfl)

/-- A whole number rounds to a whole number. -/
theorem nearest_int (m : ℤ) : ∃ k : ℤ, nearest (m : ℚ) = k := by
  by_cases hm : (m : ℚ) = 0
  · exact ⟨0, by simp [hm]⟩
  by_cases hu : 0 ≤ unitExp (m : ℚ)
  · obtain ⟨u, hu⟩ := Int.eq_ofNat_of_zero_le hu
    refine ⟨roundHalfEven ((m : ℚ) / 2 ^ unitExp (m : ℚ)) * 2 ^ u, ?_⟩
    rw [nearest, if_neg hm, pow2_eq, hu]
    push_cast
    rfl
  · -- below the unit one every whole number is representable
    refine ⟨m, Representable.nearest_eq ?_⟩
    have habs : |(m : ℚ)| < 2 ^ (53 : ℤ) := by
      refine (abs_lt_pow_unitExp hm).trans_le ?_
      exact zpow_le_zpow_right₀ (by norm_num) (by omega)
    refine ⟨m, 0, by simp, ?_, by norm_num⟩
    exact_mod_cast habs

theorem nearest_nearest (q : ℚ) : nearest (nearest q) = nearest q :=
  (representable_nearest q).nearest_eq

theorem representable_of_nearest_eq {v : ℚ} (h : nearest v = v) : Representable v :=
  h ▸ representable_nearest v

theorem Representable.neg {v : ℚ} (hv : Representable v) : Representable (-v) := by
  obtain ⟨m, e, rfl, hm, he⟩ := hv
  exact ⟨-m, e, by push_cast; ring, by simpa using hm, he⟩

/-! ### Values and arithmetic -/

/-- The least power of two beyond the format. -/
def overflowBound : ℚ := pow2 1024

theorem overflowBound_pos : 0 < overflowBound := by
  rw [overflowBound, pow2_eq]
  positivity

/-- A binary64 value; a finite one carries the proof that the format holds it. -/
inductive Binary64
  | nan
  | inf (negative : Bool)
  | fin (q : ℚ) (valid : nearest q = q ∧ |q| < overflowBound)

namespace Binary64

instance : DecidableEq Binary64
  | .nan, .nan => isTrue rfl
  | .inf a, .inf b => decidable_of_iff (a = b) (by simp)
  | .fin p _, .fin q _ => decidable_of_iff (p = q) (by simp)
  | .nan, .inf _ => isFalse (by simp)
  | .nan, .fin _ _ => isFalse (by simp)
  | .inf _, .nan => isFalse (by simp)
  | .inf _, .fin _ _ => isFalse (by simp)
  | .fin _ _, .nan => isFalse (by simp)
  | .fin _ _, .inf _ => isFalse (by simp)

/-- Round an exact result into the format. -/
def ofRat (q : ℚ) : Binary64 :=
  if h : |nearest q| < overflowBound then .fin (nearest q) ⟨nearest_nearest q, h⟩
  else .inf (decide (q < 0))

def zero : Binary64 := .fin 0 ⟨nearest_zero, by simpa using overflowBound_pos⟩

def isFinite : Binary64 → Bool
  | .fin _ _ => true
  | _ => false

/-- The number that a finite value is, zero in the place of none. -/
def value : Binary64 → ℚ
  | .fin q _ => q
  | _ => 0

/-- IEEE `<`: false as soon as a NaN takes part. -/
def lt : Binary64 → Binary64 → Bool
  | .fin p _, .fin q _ => decide (p < q)
  | .inf true, .fin _ _ => true
  | .inf true, .inf false => true
  | .fin _ _, .inf false => true
  | _, _ => false

/-- IEEE `≤`: false as soon as a NaN takes part. -/
def le : Binary64 → Binary64 → Bool
  | .fin p _, .fin q _ => decide (p ≤ q)
  | .inf true, .fin _ _ => true
  | .inf true, .inf _ => true
  | .inf false, .inf false => true
  | .fin _ _, .inf false => true
  | _, _ => false

/-- IEEE `==`: false as soon as a NaN takes part. -/
def eq : Binary64 → Binary64 → Bool
  | .fin p _, .fin q _ => decide (p = q)
  | .inf a, .inf b => a == b
  | _, _ => false

def neg : Binary64 → Binary64
  | .nan => .nan
  | .inf a => .inf (!a)
  | .fin q h => .fin (-q)
      ⟨(representable_of_nearest_eq h.1).neg.nearest_eq, by rw [abs_neg]; exact h.2⟩

def abs (x : Binary64) : Binary64 :=
  match x with
  | .nan => .nan
  | .inf _ => .inf false
  | .fin q _ => if q < 0 then x.neg else x

def add : Binary64 → Binary64 → Binary64
  | .fin p _, .fin q _ => ofRat (p + q)
  | .inf a, .inf b => if a = b then .inf a else .nan
  | .inf a, .fin _ _ => .inf a
  | .fin _ _, .inf b => .inf b
  | _, _ => .nan

def sub (x y : Binary64) : Binary64 := x.add y.neg

def mul : Binary64 → Binary64 → Binary64
  | .fin p _, .fin q _ => ofRat (p * q)
  | .inf a, .inf b => .inf (a != b)
  | .inf a, .fin q _ => if q = 0 then .nan else .inf (a != decide (q < 0))
  | .fin p _, .inf b => if p = 0 then .nan else .inf (decide (p < 0) != b)
  | _, _ => .nan

/-- Division; `none` for a zero divisor. -/
def div? : Binary64 → Binary64 → Option Binary64
  | _, .fin 0 _ => none
  | .fin p _, .fin q _ => some (ofRat (p / q))
  | .inf a, .fin q _ => some (.inf (a != decide (q < 0)))
  | .fin _ _, .inf _ => some zero
  | _, _ => some .nan

/-- The conversion of an integer; `none` when it rounds out of the format. -/
def ofInt? (n : ℤ) : Option Binary64 :=
  match ofRat n with
  | .inf _ => none
  | x => some x

/-- The integer part of a finite value, cut toward zero. -/
def trunc? : Binary64 → Option ℤ
  | .fin q _ => some (q.num.tdiv q.den)
  | _ => none

/-- Round to `digits` decimal places, halves of the exact value to even. -/
def roundDigits (x : Binary64) (digits : ℕ) : Binary64 :=
  match x with
  | .fin q _ => ofRat ((roundHalfEven (q * 10 ^ digits) : ℚ) / 10 ^ digits)
  | x => x

theorem ofInt?_eq_ofRat {n : ℤ} {x : Binary64} (h : ofInt? n = some x) : x = ofRat n := by
  unfold ofInt? at h
  split at h
  · cases h
  · exact (Option.some.inj h).symm

/-- A finite result of rounding is the nearest number of the format. -/
theorem exists_fin_of_ofRat {q : ℚ} {x : Binary64} (h : ofRat q = x) (hfin : x.isFinite = true) :
    ∃ valid, x = .fin (nearest q) valid := by
  subst h
  unfold ofRat at hfin ⊢
  split_ifs at hfin ⊢ with hbound
  · exact ⟨⟨nearest_nearest q, hbound⟩, rfl⟩
  · cases hfin

/-- A value of the format is the rounding of itself. -/
theorem ofRat_fin {q : ℚ} (valid : nearest q = q ∧ |q| < overflowBound) :
    ofRat q = .fin q valid := by
  have h : |nearest q| < overflowBound := by
    rw [valid.1]
    exact valid.2
  rw [ofRat, dif_pos h]
  congr 1
  exact valid.1

theorem abs_fin (q : ℚ) (valid : nearest q = q ∧ |q| < overflowBound) :
    ∃ valid', (fin q valid).abs = .fin |q| valid' := by
  by_cases hq : q < 0
  · obtain ⟨h, h'⟩ : nearest (-q) = -q ∧ |-q| < overflowBound :=
      ⟨(representable_of_nearest_eq valid.1).neg.nearest_eq, by rw [abs_neg]; exact valid.2⟩
    have habs := abs_of_neg hq
    exact ⟨by rw [habs]; exact ⟨h, h'⟩, by simp [abs, neg, hq, habs]⟩
  · have habs := abs_of_nonneg (not_lt.mp hq)
    exact ⟨by rw [habs]; exact valid, by simp [abs, hq, habs]⟩

/-- A value that is positive and finite. -/
def Positive (x : Binary64) : Prop := ∃ q h, x = .fin q h ∧ 0 < q

@[simp] theorem isFinite_fin (q h) : isFinite (.fin q h) = true := rfl

@[simp] theorem lt_fin (p q hp hq) : lt (.fin p hp) (.fin q hq) = decide (p < q) := rfl

@[simp] theorem le_fin (p q hp hq) : le (.fin p hp) (.fin q hq) = decide (p ≤ q) := rfl

@[simp] theorem eq_fin (p q hp hq) : eq (.fin p hp) (.fin q hq) = decide (p = q) := rfl

theorem positive_of_checks {x : Binary64} (hfin : x.isFinite = true) (hpos : x.le zero = false) :
    x.Positive := by
  cases x with
  | nan => cases hfin
  | inf a => cases hfin
  | fin q h =>
      simp only [zero, le_fin, decide_eq_false_iff_not, not_le] at hpos
      exact ⟨q, h, rfl, hpos⟩

theorem Positive.isFinite {x : Binary64} (hx : x.Positive) : x.isFinite = true := by
  obtain ⟨q, h, rfl, _⟩ := hx
  rfl

/-- On finite values a failed `≤` is a `<` the other way round. -/
theorem lt_of_le_false {x y : Binary64} (hx : x.isFinite = true) (hy : y.isFinite = true)
    (h : x.le y = false) : y.lt x = true := by
  cases x with
  | nan => cases hx
  | inf a => cases hx
  | fin p hp =>
      cases y with
      | nan => cases hy
      | inf b => cases hy
      | fin q hq => simpa using h

/-- Away from NaN a failed `≤` is a `<` the other way round. -/
theorem lt_of_le_false_of_ne_nan {x y : Binary64} (hx : x ≠ nan) (hy : y ≠ nan)
    (h : x.le y = false) : y.lt x = true := by
  cases x with
  | nan => exact absurd rfl hx
  | inf a =>
      cases y with
      | nan => exact absurd rfl hy
      | inf b => cases a <;> cases b <;> first | rfl | cases h
      | fin q hq => cases a <;> first | rfl | cases h
  | fin p hp =>
      cases y with
      | nan => exact absurd rfl hy
      | inf b => cases b <;> first | rfl | cases h
      | fin q hq => simpa using h

theorem ofRat_ne_nan (q : ℚ) : ofRat q ≠ nan := by
  unfold ofRat
  split_ifs
  · simp
  · simp

theorem lt_of_lt_of_le {x y z : Binary64} (hxy : x.lt y = true) (hyz : y.le z = true) :
    x.lt z = true := by
  cases y with
  | nan => cases z <;> cases hyz
  | inf b =>
      cases b with
      | true =>
          cases x with
          | nan => cases hxy
          | inf a => cases a <;> cases hxy
          | fin p hp => cases hxy
      | false =>
          cases z with
          | nan => cases hyz
          | fin r hr => cases hyz
          | inf c =>
              cases c with
              | true => cases hyz
              | false => exact hxy
  | fin q hq =>
      cases z with
      | nan => cases hyz
      | inf c =>
          cases c with
          | true => cases hyz
          | false =>
              cases x with
              | nan => cases hxy
              | fin p hp => rfl
              | inf a =>
                  cases a with
                  | true => rfl
                  | false => cases hxy
      | fin r hr =>
          have hqr : q ≤ r := by simpa using hyz
          cases x with
          | nan => cases hxy
          | inf a =>
              cases a with
              | true => rfl
              | false => cases hxy
          | fin p hp =>
              have hpq : p < q := by simpa using hxy
              simpa using hpq.trans_le hqr

theorem le_lt_trans {x y z : Binary64} (hxy : x.le y = true) (hyz : y.lt z = true) :
    x.lt z = true := by
  cases y with
  | nan => cases hyz
  | inf b =>
      cases b with
      | false => cases z <;> cases hyz
      | true =>
          cases x with
          | nan => cases hxy
          | fin p hp => cases hxy
          | inf a =>
              cases a with
              | true => exact hyz
              | false => cases hxy
  | fin q hq =>
      cases x with
      | nan => cases hxy
      | inf a =>
          cases a with
          | false => cases hxy
          | true =>
              cases z with
              | nan => cases hyz
              | fin r hr => rfl
              | inf c =>
                  cases c with
                  | true => cases hyz
                  | false => rfl
      | fin p hp =>
          have hpq : p ≤ q := by simpa using hxy
          cases z with
          | nan => cases hyz
          | inf c =>
              cases c with
              | true => cases hyz
              | false => rfl
          | fin r hr =>
              have hqr : q < r := by simpa using hyz
              simpa using hpq.trans_lt hqr

theorem le_trans {x y z : Binary64} (hxy : x.le y = true) (hyz : y.le z = true) :
    x.le z = true := by
  cases x with
  | nan => cases hxy
  | inf a =>
      cases a with
      | true =>
          cases z with
          | nan =>
              cases y with
              | inf b => cases b <;> cases hyz
              | _ => cases hyz
          | _ => rfl
      | false =>
          cases y with
          | inf b =>
              cases b with
              | true => cases hxy
              | false => exact hyz
          | _ => cases hxy
  | fin p hp =>
      cases y with
      | nan => cases hxy
      | inf b =>
          cases b with
          | true => cases hxy
          | false =>
              cases z with
              | inf c =>
                  cases c with
                  | true => cases hyz
                  | false => rfl
              | _ => cases hyz
      | fin q hq =>
          cases z with
          | nan => cases hyz
          | inf c =>
              cases c with
              | true => cases hyz
              | false => rfl
          | fin r hr =>
              have hpq : p ≤ q := by simpa using hxy
              have hqr : q ≤ r := by simpa using hyz
              simpa using hpq.trans hqr

/-- A rounded result below a finite value stays below it, overflow included. -/
theorem ofRat_le_fin {q p : ℚ} (hp : nearest p = p ∧ |p| < overflowBound) (h : q ≤ p) :
    (ofRat q).le (.fin p hp) = true := by
  have hle : nearest q ≤ p := nearest_le (representable_of_nearest_eq hp.1) h
  unfold ofRat
  split_ifs with hfit
  · simpa using hle
  · have hneg : q < 0 := by
      by_contra hnonneg
      have h0 : 0 ≤ nearest q := le_nearest representable_zero (not_lt.mp hnonneg)
      have hup : nearest q < overflowBound :=
        lt_of_le_of_lt hle (lt_of_le_of_lt (le_abs_self p) hp.2)
      exact hfit (by rwa [abs_of_nonneg h0])
    simp [hneg, le]

/-- What rounds out of the format has the sign of its infinity. -/
theorem ofRat_overflow {q : ℚ} (h : ¬ |nearest q| < overflowBound) :
    ofRat q = .inf (decide (q < 0)) := dif_neg h

/-- Rounding into the format keeps the order, overflow included. -/
theorem ofRat_mono {p q : ℚ} (h : p ≤ q) : (ofRat p).le (ofRat q) = true := by
  have hmono := nearest_mono h
  by_cases hp : |nearest p| < overflowBound
  · have hfin : ofRat p = .fin (nearest p) ⟨nearest_nearest p, hp⟩ := dif_pos hp
    by_cases hq : |nearest q| < overflowBound
    · have hfin' : ofRat q = .fin (nearest q) ⟨nearest_nearest q, hq⟩ := dif_pos hq
      rw [hfin, hfin']
      simpa using hmono
    · -- too large a result above a fitting one is positive
      have hpos : ¬ q < 0 := by
        intro hneg
        have h0 : nearest q ≤ 0 := nearest_le representable_zero hneg.le
        apply hq
        rw [abs_of_nonpos h0]
        linarith [(neg_le_abs (nearest p)).trans_lt hp]
      rw [hfin, ofRat_overflow hq, decide_eq_false hpos]
      rfl
  · rw [ofRat_overflow hp]
    by_cases hneg : p < 0
    · rw [decide_eq_true hneg]
      unfold ofRat
      split_ifs
      · rfl
      · rfl
    · -- both are too large
      have h0 : 0 ≤ nearest p := le_nearest representable_zero (not_lt.mp hneg)
      have hq : ¬ |nearest q| < overflowBound := by
        rw [abs_of_nonneg h0] at hp
        intro hsmall
        exact hp ((hmono.trans (le_abs_self _)).trans_lt hsmall)
      rw [ofRat_overflow hq, decide_eq_false hneg,
        decide_eq_false fun hq0 => hneg (h.trans_lt hq0)]
      rfl

/-- Subtracting a non-negative number gives a NaN or does not increase the value. -/
theorem sub_nan_or_le {limit d : Binary64} (hd : zero.le d = true) :
    limit.sub d = .nan ∨ (limit.sub d).le limit = true := by
  cases d with
  | nan => cases hd
  | inf b =>
      cases b with
      | true => cases hd
      | false =>
          cases limit with
          | nan => exact Or.inl rfl
          | fin p hp => exact Or.inr rfl
          | inf a =>
              cases a with
              | true => exact Or.inr rfl
              | false => exact Or.inl rfl
  | fin q hq =>
      cases limit with
      | nan => exact Or.inl rfl
      | inf a => exact Or.inr (by cases a <;> rfl)
      | fin p hp =>
          have hq0 : 0 ≤ q := by simpa [zero] using hd
          exact Or.inr (ofRat_le_fin hp (by linarith))

/-- What is below a limit less a margin is below the limit. -/
theorem lt_of_lt_sub {x limit d : Binary64} (hd : zero.le d = true)
    (h : x.lt (limit.sub d) = true) : x.lt limit = true := by
  rcases (sub_nan_or_le hd : limit.sub d = .nan ∨ _) with hnan | hle
  · rw [hnan] at h
    cases x with
    | nan => cases h
    | inf a => cases a <;> cases h
    | fin p hp => cases h
  · exact lt_of_lt_of_le h hle

theorem le_of_lt_eq_true {x y : Binary64} (h : x.lt y = true) : x.le y = true := by
  cases x with
  | nan => cases h
  | inf a =>
      cases y with
      | nan => cases a <;> cases h
      | inf b => cases a <;> cases b <;> first | rfl | cases h
      | fin q hq => cases a <;> first | rfl | cases h
  | fin p hp =>
      cases y with
      | nan => cases h
      | inf b => cases b <;> first | rfl | cases h
      | fin q hq => exact decide_eq_true (Rat.le_of_lt (of_decide_eq_true h))

theorem lt_lt_trans {x y z : Binary64} (hxy : x.lt y = true) (hyz : y.lt z = true) :
    x.lt z = true := lt_of_lt_of_le hxy (le_of_lt_eq_true hyz)

theorem lt_asymm {x y : Binary64} (h : x.lt y = true) : y.lt x = false := by
  cases x with
  | nan => cases h
  | inf a =>
      cases y with
      | nan => cases a <;> cases h
      | inf b => cases a <;> cases b <;> first | rfl | cases h
      | fin q hq => cases a <;> first | rfl | cases h
  | fin p hp =>
      cases y with
      | nan => cases h
      | inf b => cases b <;> first | rfl | cases h
      | fin q hq =>
          have hpq : p < q := by simpa using h
          simpa using hpq.le

/-! ### A sign as a factor -/

theorem representable_one : Representable 1 := ⟨1, 0, by norm_num, by norm_num, by norm_num⟩

theorem one_lt_overflowBound : (1 : ℚ) < overflowBound := by
  rw [overflowBound, pow2_eq]
  exact one_lt_pow₀ (by norm_num) (by norm_num)

theorem one_mul (x : Binary64) : (ofRat 1).mul x = x := by
  have h : ofRat 1 = .fin 1 ⟨representable_one.nearest_eq, by simpa using one_lt_overflowBound⟩ :=
    ofRat_fin _
  rw [h]
  cases x with
  | nan => rfl
  | inf a => cases a <;> simp [mul]
  | fin q hq => simpa [mul] using ofRat_fin hq

theorem neg_one_mul (x : Binary64) : (ofRat (-1)).mul x = x.neg := by
  have h : ofRat (-1) = .fin (-1)
      ⟨representable_one.neg.nearest_eq, by simpa using one_lt_overflowBound⟩ := ofRat_fin _
  rw [h]
  cases x with
  | nan => rfl
  | inf a => cases a <;> simp [mul, neg]
  | fin q hq => simpa [mul, neg] using ofRat_fin _

theorem lt_or_eq_of_le {x y : Binary64} (h : x.le y = true) : x.lt y = true ∨ x.eq y = true := by
  cases x with
  | nan => cases h
  | inf a =>
      cases y with
      | nan => cases a <;> cases h
      | inf b => cases a <;> cases b <;> first | exact Or.inl rfl | exact Or.inr rfl | cases h
      | fin q hq => exact Or.inl (by cases a <;> exact h)
  | fin p hp =>
      cases y with
      | nan => cases h
      | inf b => exact Or.inl (by cases b <;> exact h)
      | fin q hq =>
          have hpq : p ≤ q := by simpa using h
          simpa using hpq.lt_or_eq

theorem eq_false_of_lt {x y : Binary64} (h : x.lt y = true) : x.eq y = false := by
  cases x with
  | nan => cases h
  | inf a =>
      cases y with
      | nan => cases a <;> cases h
      | inf b => cases a <;> cases b <;> first | rfl | cases h
      | fin q hq => rfl
  | fin p hp =>
      cases y with
      | nan => cases h
      | inf b => rfl
      | fin q hq =>
          have hpq : p < q := by simpa using h
          simpa using hpq.ne

/-- Below or equal is strictly below, or equal. -/
theorem lt_eq_not_eq {x y : Binary64} (h : x.le y = true) : x.lt y = !x.eq y := by
  cases hlt : x.lt y with
  | true => rw [eq_false_of_lt hlt, Bool.not_false]
  | false => rw [(lt_or_eq_of_le h).resolve_left (by rw [hlt]; exact Bool.false_ne_true), Bool.not_true]

theorem eq_comm (x y : Binary64) : x.eq y = y.eq x := by
  cases x with
  | nan => cases y <;> rfl
  | inf a => cases y <;> first | rfl | exact Bool.beq_comm
  | fin p hp => cases y <;> first | rfl | exact decide_eq_decide.mpr ⟨Eq.symm, Eq.symm⟩

/-- Subtracting a negated non-negative number gives a NaN or does not decrease the value. -/
theorem sub_neg_nan_or_le {limit d : Binary64} (hd : zero.le d = true) :
    limit.sub d.neg = .nan ∨ limit.le (limit.sub d.neg) = true := by
  cases d with
  | nan => cases hd
  | inf b =>
      cases b with
      | true => cases hd
      | false =>
          cases limit with
          | nan => exact Or.inl rfl
          | fin p hp => exact Or.inr rfl
          | inf a =>
              cases a with
              | true => exact Or.inl rfl
              | false => exact Or.inr rfl
  | fin q hq =>
      cases limit with
      | nan => exact Or.inl rfl
      | inf a => exact Or.inr (by cases a <;> rfl)
      | fin p hp =>
          have hq0 : 0 ≤ q := by simpa [zero] using hd
          right
          rw [← ofRat_fin hp]
          have hsum : (fin p hp).sub (fin q hq).neg = ofRat (p + q) := by simp [sub, neg, add]
          rw [ofRat_fin hp, hsum, ← ofRat_fin hp]
          exact ofRat_mono (by linarith)

/-- Division of finite values by a divisor other than zero. -/
theorem div?_fin {p q : ℚ} (hp : nearest p = p ∧ |p| < overflowBound)
    (hq : nearest q = q ∧ |q| < overflowBound) (hzero : q ≠ 0) :
    (fin p hp).div? (fin q hq) = some (ofRat (p / q)) := by
  obtain ⟨num, den, hden, hred⟩ := q
  rcases num with (_ | n) | n
  · rcases den with _ | _ | d
    · exact absurd rfl hden
    · exact absurd rfl hzero
    · rfl
  · rfl
  · rfl

/-- Adding zero does not move a value that compares. -/
theorem add_zero_le {c t : Binary64} (h : c.le t = true) : (t.add zero).le t = true := by
  cases t with
  | nan => rcases c with _ | (_ | _) | _ <;> exact nomatch h
  | inf a => cases a <;> rfl
  | fin q hq =>
      show (ofRat (q + 0)).le (.fin q hq) = true
      rw [Rat.add_zero]
      exact ofRat_le_fin hq (Rat.le_refl)

end Binary64

end Foundation
