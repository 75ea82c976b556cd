import Mathlib.Data.List.Basic
import Mathlib.Data.Nat.Digits.Defs
import Mathlib.Tactic.SplitIfs

/-!
# The scalars and the literals of JSON text

`json.dumps` escapes a string to printable ASCII, and it stands in the text between
quotes as a literal. A literal is read by an automaton that knows whether it stands
inside an escape.
-/

namespace Foundation
namespace JsonText

abbrev Text := List Char

/-- A fact about some characters, checked one by one. -/
theorem each {p : Char → Prop} [DecidablePred p] {s : Text}
    (h : s.all (fun c => decide (p c)) = true) : ∀ c ∈ s, p c :=
  fun c hc => of_decide_eq_true (List.all_eq_true.mp h c hc)

/-! ## Scalars -/

/-- The characters that the texts of `null`, the booleans and the numbers are made of. -/
def isScalarMark (c : Char) : Bool := "+-.0123456789eEnultrefasNIiy".toList.contains c

def isExponent : Text → Bool
  | [] => true
  | e :: rest =>
      (e == 'e' || e == 'E') &&
        let digits := match rest with
          | '+' :: digits => digits
          | '-' :: digits => digits
          | digits => digits
        digits != [] && digits.all Char.isDigit

def isFraction : Text → Bool
  | '.' :: rest =>
      rest.takeWhile Char.isDigit != [] && isExponent (rest.dropWhile Char.isDigit)
  | rest => isExponent rest

/-- The numbers of the JSON grammar: no leading zero and no bare point. -/
def isNumber (token : Text) : Bool :=
  let digits := match token with
    | '-' :: digits => digits
    | digits => digits
  let whole := digits.takeWhile Char.isDigit
  (whole == ['0'] || (whole != [] && whole.head? != some '0')) &&
    isFraction (digits.dropWhile Char.isDigit)

/-- The constants that `json.loads` knows. -/
def scalarWords : List Text :=
  ["null", "true", "false", "NaN", "Infinity", "-Infinity"].map String.toList

def isScalarToken (token : Text) : Bool :=
  token.all isScalarMark && (scalarWords.contains token || isNumber token)

/-- The text of a value that is neither a string nor a container. -/
structure Scalar where
  token : Text
  isToken : isScalarToken token = true

/-! ## Literals -/

/-- Where a literal is read: outside any escape, behind a backslash, or in a `\u`
escape with so many digits to come after the next one. -/
inductive Spot
  | plain
  | esc
  | hex (left : ℕ)
  deriving DecidableEq, Repr

/-- One character of a literal, given the characters that stand for themselves, those
that may follow a backslash, and the hexadecimal digits. -/
def Spot.step (itself escaped digit : Char → Bool) : Spot → Char → Option Spot
  | .plain, c =>
      if c = '\\' then some .esc
      else if c ≠ '"' ∧ itself c then some .plain
      else none
  | .esc, c =>
      if c = 'u' then some (.hex 3)
      else if escaped c then some .plain
      else none
  | .hex 0, c => if digit c then some .plain else none
  | .hex (left + 1), c => if digit c then some (.hex left) else none

def isPrintable (c : Char) : Bool := 32 ≤ c.toNat && c.toNat ≤ 126

def isLowerHex (c : Char) : Bool := "0123456789abcdef".toList.contains c

def isHex (c : Char) : Bool := "0123456789abcdefABCDEF".toList.contains c

/-- The literals that `json.dumps` writes, with `ensure_ascii`. -/
def Spot.written : Spot → Char → Option Spot :=
  Spot.step isPrintable "\"\\bfnrt".toList.contains isLowerHex

/-- The literals that `json.loads` reads: `strict` refuses control characters. -/
def Spot.read : Spot → Char → Option Spot :=
  Spot.step (fun c => 32 ≤ c.toNat) "\"\\/bfnrt".toList.contains isHex

/-- A literal as `json.dumps` writes it, without its quotes. -/
def Written (r : Text) : Prop := r.foldlM Spot.written .plain = some .plain

instance (r : Text) : Decidable (Written r) :=
  inferInstanceAs (Decidable (r.foldlM Spot.written .plain = some .plain))

/-- An automaton that admits more reads all that one admitting less reads. -/
theorem Spot.step_mono {p p' e e' d d' : Char → Bool} (hp : ∀ c, p c = true → p' c = true)
    (he : ∀ c, e c = true → e' c = true) (hd : ∀ c, d c = true → d' c = true) {q q' : Spot}
    {c : Char} (h : Spot.step p e d q c = some q') : Spot.step p' e' d' q c = some q' := by
  cases q with
  | plain =>
      simp only [Spot.step] at h ⊢
      split_ifs at h with hslash hself
      · rw [if_pos hslash, h]
      · rw [if_neg hslash, if_pos ⟨hself.1, hp c hself.2⟩, h]
  | esc =>
      simp only [Spot.step] at h ⊢
      split_ifs at h with hu hesc
      · rw [if_pos hu, h]
      · rw [if_neg hu, if_pos (he c hesc), h]
  | hex left =>
      cases left with
      | zero =>
          simp only [Spot.step] at h ⊢
          split_ifs at h with hdigit
          rw [if_pos (hd c hdigit), h]
      | succ left =>
          simp only [Spot.step] at h ⊢
          split_ifs at h with hdigit
          rw [if_pos (hd c hdigit), h]

theorem Spot.read_of_written {q q' : Spot} {c : Char} (h : q.written c = some q') :
    q.read c = some q' := by
  have hshort : ∀ c ∈ "\"\\bfnrt".toList, "\"\\/bfnrt".toList.contains c = true :=
    each (by decide)
  have hhex : ∀ c ∈ "0123456789abcdef".toList, isHex c = true := each (by decide)
  apply Spot.step_mono _ _ _ h
  · intro c hc
    simp only [isPrintable, Bool.and_eq_true] at hc
    exact hc.1
  · exact fun c hc => hshort c (List.contains_iff_mem.mp hc)
  · exact fun c hc => hhex c (List.contains_iff_mem.mp hc)

/-- What can be written can be read. -/
theorem foldlM_read_of_written {r : Text} {q q' : Spot}
    (h : r.foldlM Spot.written q = some q') : r.foldlM Spot.read q = some q' := by
  induction r generalizing q with
  | nil => exact h
  | cons c rest ih =>
      rw [List.foldlM_cons] at h ⊢
      obtain ⟨q₁, hq₁, hrest⟩ := Option.bind_eq_some_iff.mp h
      rw [Spot.read_of_written hq₁]
      exact ih hrest

/-- A character of a written literal is printable. -/
theorem Spot.printable_of_written {q q' : Spot} {c : Char} (h : q.written c = some q') :
    isPrintable c = true := by
  have hshort : ∀ c ∈ "\"\\bfnrt".toList, isPrintable c = true := each (by decide)
  have hhex : ∀ c ∈ "0123456789abcdef".toList, isPrintable c = true := each (by decide)
  have hdigit : isLowerHex c = true → isPrintable c = true := fun hc =>
    hhex c (List.contains_iff_mem.mp hc)
  simp only [Spot.written] at h
  cases q with
  | plain =>
      simp only [Spot.step] at h
      split_ifs at h with hslash hplain
      · exact hslash ▸ rfl
      · exact hplain.2
  | esc =>
      simp only [Spot.step] at h
      split_ifs at h with hu hc
      · exact hu ▸ rfl
      · exact hshort c (List.contains_iff_mem.mp hc)
  | hex left =>
      cases left <;> simp only [Spot.step] at h <;> split_ifs at h with hc <;> exact hdigit hc

theorem printable_of_written {r : Text} {q q' : Spot} (h : r.foldlM Spot.written q = some q') :
    ∀ c ∈ r, isPrintable c = true := by
  induction r generalizing q with
  | nil => exact fun c hc => absurd hc (List.not_mem_nil)
  | cons c rest ih =>
      rw [List.foldlM_cons] at h
      obtain ⟨q₁, hq₁, hrest⟩ := Option.bind_eq_some_iff.mp h
      exact List.forall_mem_cons.mpr ⟨Spot.printable_of_written hq₁, ih hrest⟩

/-! ## Escaping -/

def hex4 (n : ℕ) : Text := [n / 4096 % 16, n / 256 % 16, n / 16 % 16, n % 16].map Nat.digitChar

def unicodeEscape (n : ℕ) : Text := '\\' :: 'u' :: hex4 n

/-- The escapes that have a letter of their own. -/
def shortEscape? (c : Char) : Option Char :=
  if c = '"' then some '"'
  else if c = '\\' then some '\\'
  else if c = '\x08' then some 'b'
  else if c = '\x0c' then some 'f'
  else if c = '\n' then some 'n'
  else if c = '\r' then some 'r'
  else if c = '\t' then some 't'
  else none

/-- `py_encode_basestring_ascii`: a character beyond the basic plane is a surrogate
pair. -/
def escapeChar (c : Char) : Text :=
  match shortEscape? c with
  | some letter => ['\\', letter]
  | none =>
      if isPrintable c then [c]
      else if c.toNat < 0x10000 then unicodeEscape c.toNat
      else
        unicodeEscape (0xd800 + (c.toNat - 0x10000) / 1024 % 1024) ++
          unicodeEscape (0xdc00 + (c.toNat - 0x10000) % 1024)

def escape (s : Text) : Text := s.flatMap escapeChar

theorem isLowerHex_digitChar (n : ℕ) : isLowerHex (Nat.digitChar (n % 16)) = true := by
  have hall : ∀ k < 16, isLowerHex (Nat.digitChar k) = true := by decide
  exact hall _ (Nat.mod_lt n (by decide))

theorem written_unicodeEscape (n : ℕ) : Written (unicodeEscape n) := by
  simp [Written, unicodeEscape, hex4, Spot.written, Spot.step, isLowerHex_digitChar]

theorem written_nil : Written [] := rfl

theorem Written.append {r s : Text} (hr : Written r) (hs : Written s) : Written (r ++ s) := by
  rw [Written, List.foldlM_append, hr]
  exact hs

theorem written_escapeChar (c : Char) : Written (escapeChar c) := by
  cases hshort : shortEscape? c with
  | some letter =>
      have hletter : letter ∈ "\"\\bfnrt".toList := by
        simp only [shortEscape?] at hshort
        split_ifs at hshort <;> cases hshort <;> decide
      have hall : ∀ letter ∈ "\"\\bfnrt".toList, Written ['\\', letter] := each (by decide)
      simp only [escapeChar, hshort]
      exact hall letter hletter
  | none =>
      simp only [escapeChar, hshort]
      split_ifs with hprint hplane
      · have hquote : c ≠ '"' := by rintro rfl; exact absurd hshort (by decide)
        have hslash : c ≠ '\\' := by rintro rfl; exact absurd hshort (by decide)
        simp [Written, Spot.written, Spot.step, hquote, hslash, hprint]
      · exact written_unicodeEscape c.toNat
      · exact (written_unicodeEscape _).append (written_unicodeEscape _)

/-- Every string is escaped to a literal. -/
theorem written_escape (s : Text) : Written (escape s) := by
  induction s with
  | nil => exact written_nil
  | cons c rest ih => exact (written_escapeChar c).append ih

/-- Printable text without quotes and backslashes is its own literal. -/
theorem escape_eq_self {s : Text}
    (h : ∀ c ∈ s, isPrintable c = true ∧ c ≠ '"' ∧ c ≠ '\\') : escape s = s := by
  induction s with
  | nil => rfl
  | cons c rest ih =>
      obtain ⟨⟨hprint, hquote, hslash⟩, hrest⟩ := List.forall_mem_cons.mp h
      have hself : escapeChar c = [c] := by
        have hcontrol : ∀ d : Char, isPrintable d = false → c ≠ d := by
          rintro d hd rfl
          exact absurd (hprint.symm.trans hd) (by decide)
        simp only [escapeChar, shortEscape?, hquote, hslash, hcontrol '\x08' rfl,
          hcontrol '\x0c' rfl, hcontrol '\n' rfl, hcontrol '\r' rfl, hcontrol '\t' rfl,
          hprint, if_false, if_true]
      change escapeChar c ++ escape rest = c :: rest
      rw [hself, ih hrest, List.singleton_append]

end JsonText
end Foundation
