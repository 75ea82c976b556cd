import System2.Common.Errors
import System2.Foundation.OrderedDict
import Mathlib.Data.List.TakeWhile

/-!
# Secrets and settings (`common/secrets.py`)

A setting comes from the process environment, else from the lines of an env file. The parser
knows whole comment lines only: what stands behind a `#` on the line of a value is part of
the value, which is then no word of a flag, no numeral, and not empty.

## Implementation notes

The text of the file is what reading it in text mode gives, so its line ends are single
characters. An unreadable file is left out, and the environment does not change meanwhile.
-/

namespace System2
open Foundation

/-! ### Texts -/

/-- `strip` of the characters of a kind. -/
def trim (p : Char → Bool) (s : List Char) : List Char := ((s.dropWhile p).reverse.dropWhile p).reverse

theorem mem_dropWhile {p : Char → Bool} {s : List Char} {c : Char} (hc : c ∈ s) (hp : p c = false) :
    c ∈ s.dropWhile p := by
  have hsplit := List.takeWhile_append_dropWhile (p := p) (l := s)
  rw [← hsplit, List.mem_append] at hc
  refine hc.resolve_left fun hmem => ?_
  rw [List.mem_takeWhile_imp hmem] at hp
  cases hp

/-- A character that is not stripped stays. -/
theorem mem_trim {p : Char → Bool} {s : List Char} {c : Char} (hc : c ∈ s) (hp : p c = false) :
    c ∈ trim p s :=
  List.mem_reverse.mpr (mem_dropWhile (List.mem_reverse.mpr (mem_dropWhile hc hp)) hp)

/-- The line ends of `str.splitlines`. -/
def isLineEnd (c : Char) : Bool :=
  let n := c.toNat
  (10 ≤ n && n ≤ 13) || (28 ≤ n && n ≤ 30) || n == 0x85 || n == 0x2028 || n == 0x2029

/-- `str.splitlines`. -/
def splitLines : List Char → List (List Char)
  | [] => []
  | c :: rest =>
      if isLineEnd c then [] :: splitLines rest
      else
        match splitLines rest with
        | [] => [[c]]
        | line :: lines => (c :: line) :: lines

/-! ### A text with a `#` -/

theorem mem_dropUnderscores {s out : List Char} {prev : Char}
    (h : dropUnderscores prev s = some out) (hs : '#' ∈ s) : '#' ∈ out := by
  induction s generalizing prev out with
  | nil => cases hs
  | cons c rest ih =>
      rw [dropUnderscores] at h
      split_ifs at h with hunder hdigit hafter
      · refine ih h ((List.mem_cons.mp hs).resolve_left fun heq => ?_)
        rw [← heq] at hunder
        exact absurd hunder (by decide)
      · obtain ⟨later, hlater, rfl⟩ := Option.map_eq_some_iff.mp h
        rcases List.mem_cons.mp hs with rfl | hrest
        · exact List.mem_cons_self
        · exact List.mem_cons_of_mem c (ih hlater hrest)

theorem not_mem_of_takeDigits {s : List Char} {acc count n k : ℕ}
    (h : takeDigits acc count s = (n, k, [])) : '#' ∉ s := by
  induction s generalizing acc count with
  | nil => exact List.not_mem_nil
  | cons c rest ih =>
      rw [takeDigits] at h
      cases hdigit : asciiDigit? c with
      | none =>
          rw [hdigit] at h
          cases h
      | some d =>
          rw [hdigit] at h
          refine fun hmem => (List.mem_cons.mp hmem).elim (fun heq => ?_) (ih h)
          have hnone : asciiDigit? '#' = none := by decide
          rw [← heq, hnone] at hdigit
          cases hdigit

theorem mem_takeSign {s : List Char} (hs : '#' ∈ s) : '#' ∈ (takeSign s).2 := by
  unfold takeSign
  split
  · exact (List.mem_cons.mp hs).resolve_left (by decide)
  · exact (List.mem_cons.mp hs).resolve_left (by decide)
  · exact hs

/-- Such a text is no numeral. -/
theorem readInt_hash {text : String} (h : '#' ∈ text.toList) : readInt text = none := by
  cases hplain : plainNumeral text with
  | none => rw [readInt, hplain]; rfl
  | some body =>
      have hbody : '#' ∈ body := by
        have hstripped : ∀ f : Char → Char, f '#' = '#' → '#' ∈ stripChars (text.toList.map f) :=
          fun f hf => mem_trim (hf ▸ List.mem_map_of_mem h) (by decide)
        unfold plainNumeral at hplain
        dsimp only at hplain
        split_ifs at hplain
        · exact mem_dropUnderscores hplain (hstripped _ (by decide))
        · exact Option.some.inj hplain ▸ hstripped _ (by decide)
      rw [readInt, hplain]
      have hdigits := mem_takeSign hbody
      cases htake : takeDigits 0 0 (takeSign body).2 with
      | mk n rest =>
          obtain ⟨count, tail⟩ := rest
          cases tail with
          | nil => exact absurd hdigits (not_mem_of_takeDigits htake)
          | cons c tail => simp [htake]

/-- Such a text is no word of a flag. -/
theorem lower_hash {text : String} (h : '#' ∈ text.toList) :
    ["1", "true", "yes", "on"].contains (lower (String.ofList (stripChars text.toList))) = false := by
  have hlower : '#' ∈ (lower (String.ofList (stripChars text.toList))).toList := by
    rw [lower, String.toList_ofList, String.toList_ofList, List.mem_flatMap]
    exact ⟨'#', mem_trim h (by decide), by decide⟩
  rw [List.contains_eq_mem, decide_eq_false_iff_not]
  intro hmem
  have hwords : ∀ word ∈ ["1", "true", "yes", "on"], '#' ∉ word.toList := by decide
  exact hwords _ hmem hlower

/-! ### The env file -/

/-- The key and the value of a line, if it is an assignment. -/
def assignment (raw : List Char) : Option (String × String) :=
  let line := trim isSpace raw
  if line.isEmpty || line.head? == some '#' || !line.contains '=' then none
  else
    let key := trim isSpace (line.takeWhile (· != '='))
    let val := trim isSpace (line.dropWhile (· != '=')).tail
    let val := trim (· == Char.ofNat 39) (trim (· == '"') val)
    if key.isEmpty then none else some (String.ofList key, String.ofList val)

/-- `_parse_env_file`; there may be no file. -/
def parseEnvFile : Option (List Char) → OrderedDict String String
  | none => []
  | some text => .ofPairs ((splitLines text).filterMap assignment)

/-- A view over the process environment and the env file. -/
structure Secrets where
  environ : OrderedDict String String
  fileValues : OrderedDict String String

namespace Secrets

/-- A view over an environment and a file. -/
def load (environ : OrderedDict String String) (file : Option (List Char)) : Secrets :=
  ⟨environ, parseEnvFile file⟩

/-- `Secrets.get` without a default: the environment wins. -/
def get? (s : Secrets) (name : String) : Option String :=
  (s.environ.get? name).or (s.fileValues.get? name)

def missingSecret (text : FString) : Exc := ⟨.other "MissingSecretError", text⟩

/-- The file that a refusal names. -/
def defaultEnvFile (s : Secrets) : String :=
  (s.environ.get? "SYSTEM2_ENV_FILE").getD "config/.env.system2"

/-- `Secrets.require`: absent and empty are both missing. -/
def require (s : Secrets) (name : String) : Except Exc String :=
  let val := (s.get? name).getD ""
  if val = "" then
    .error (missingSecret [.lit "Required secret/config '", .lit name, .lit "' is missing. Set it in ",
      .lit s.defaultEnvFile, .lit " (git-ignored) or the environment. System 2 refuses to start ",
      .lit "without it."])
  else .ok val

/-- `Secrets.get_bool`. -/
def getBool (s : Secrets) (name : String) (default : Bool) : Bool :=
  match s.get? name with
  | none => default
  | some val => ["1", "true", "yes", "on"].contains (lower (String.ofList (stripChars val.toList)))

/-- `Secrets.get_int`. -/
def getInt (s : Secrets) (name : String) (default : ℤ) : ℤ :=
  match s.get? name with
  | none => default
  | some val => if val = "" then default else (readInt val).getD default

variable {environ : OrderedDict String String} {file : Option (List Char)} {name v : String}

/-- The environment gives a setting its value, or, where it is silent, the last line of the file
that assigns it. -/
def Assigned (environ : OrderedDict String String) (file : Option (List Char)) (name v : String) :
    Prop :=
  environ.get? name = some v ∨ environ.get? name = none ∧ ∃ text ∈ file, ∃ earlier raw later,
    splitLines text = earlier ++ raw :: later ∧ assignment raw = some (name, v) ∧
      ∀ line ∈ later, ∀ e ∈ assignment line, e.1 ≠ name

/-- The last assignment of a file is what it is parsed to. -/
theorem get?_parseEnvFile_iff {text : List Char} :
    (parseEnvFile (some text)).get? name = some v ↔ ∃ earlier raw later,
      splitLines text = earlier ++ raw :: later ∧ assignment raw = some (name, v) ∧
        ∀ line ∈ later, ∀ e ∈ assignment line, e.1 ≠ name := by
  unfold parseEnvFile
  rw [OrderedDict.get?_ofPairs_eq_some_iff]
  constructor
  · rintro ⟨before, after, hpairs, hafter⟩
    obtain ⟨earlier, rest, hlines, -, hrest⟩ := List.filterMap_eq_append_iff.mp hpairs
    obtain ⟨skipped, raw, later, rfl, hskipped, hraw, rfl⟩ := List.filterMap_eq_cons_iff.mp hrest
    refine ⟨earlier ++ skipped, raw, later, by simp [hlines], hraw, fun line hline e he heq => ?_⟩
    exact hafter (heq ▸ List.mem_map_of_mem (List.mem_filterMap.mpr ⟨line, hline, he⟩))
  · rintro ⟨earlier, raw, later, hlines, hraw, hlater⟩
    refine ⟨earlier.filterMap assignment, later.filterMap assignment, ?_, fun hmem => ?_⟩
    · rw [hlines, List.filterMap_append, List.filterMap_cons_some hraw]
    · obtain ⟨e, he, rfl⟩ := List.mem_map.mp hmem
      obtain ⟨line, hline, he⟩ := List.mem_filterMap.mp he
      exact hlater line hline e he rfl

/-- A setting has the value that it is assigned. -/
theorem get?_load_iff : (load environ file).get? name = some v ↔ Assigned environ file name v := by
  unfold load get? Assigned
  cases henviron : environ.get? name with
  | some w => simp
  | none =>
      cases file with
      | none =>
          have hempty : (parseEnvFile none).get? name = none := rfl
          simp [hempty]
      | some text => simp [get?_parseEnvFile_iff]

/-! ### A comment behind a value -/

/-- What is stripped of a line stands before its first part and behind its last one. -/
theorem trim_line {before body : List Char} (hbody : '#' ∈ body) :
    trim isSpace (before ++ '=' :: body) =
      before.dropWhile isSpace ++ '=' :: (body.reverse.dropWhile isSpace).reverse := by
  have hequals : isSpace '=' = false := by decide
  have hfirst : (before ++ '=' :: body).dropWhile isSpace =
      before.dropWhile isSpace ++ '=' :: body := by
    rw [List.dropWhile_append, List.dropWhile_cons_of_neg (by simp [hequals])]
    split_ifs with hblank
    · rw [List.isEmpty_iff.mp hblank, List.nil_append]
    · rfl
  have hsome : (body.reverse.dropWhile isSpace).isEmpty = false := by
    rw [List.isEmpty_eq_false_iff]
    exact List.ne_nil_of_mem (mem_dropWhile (List.mem_reverse.mpr hbody) (by decide))
  have hreverse : (before.dropWhile isSpace ++ '=' :: body).reverse =
      body.reverse ++ '=' :: (before.dropWhile isSpace).reverse := by
    simp
  rw [trim, hfirst, hreverse, List.dropWhile_append, hsome]
  simp

/-- The value of an assignment keeps a `#` behind the first `=` of its line. -/
theorem assignment_hash {before body : List Char} (hfirst : '=' ∉ before) (hbody : '#' ∈ body)
    (h : assignment (before ++ '=' :: body) = some (name, v)) : '#' ∈ v.toList := by
  have hhash : '#' ∈ (body.reverse.dropWhile isSpace).reverse :=
    List.mem_reverse.mpr (mem_dropWhile (List.mem_reverse.mpr hbody) (by decide))
  have hdrop : (before.dropWhile isSpace ++ '=' :: (body.reverse.dropWhile isSpace).reverse).dropWhile
      (· != '=') = '=' :: (body.reverse.dropWhile isSpace).reverse := by
    rw [List.dropWhile_append_of_pos fun c hc => ?_]
    · simp
    · have hmem : c ∈ before := (List.dropWhile_sublist isSpace).subset hc
      exact bne_iff_ne.mpr fun heq => hfirst (heq ▸ hmem)
  unfold assignment at h
  dsimp only at h
  rw [trim_line hbody, hdrop] at h
  split_ifs at h
  obtain ⟨-, rfl⟩ := Prod.mk.inj (Option.some.inj h)
  rw [String.toList_ofList, List.tail_cons]
  exact mem_trim (mem_trim (mem_trim hhash (by decide)) (by decide)) (by decide)

/-- What becomes of a setting whose line carries a comment. -/
structure ReadsComment (s : Secrets) (name : String) : Prop where
  /-- As a flag it is off. -/
  flag : ∀ default, s.getBool name default = false
  /-- As a number it has its default. -/
  number : ∀ default, s.getInt name default = default
  /-- As a required setting it is there. -/
  required : ∃ v, s.require name = .ok v ∧ '#' ∈ v.toList

theorem readsComment_of_hash {s : Secrets} (hv : s.get? name = some v) (hhash : '#' ∈ v.toList) :
    s.ReadsComment name := by
  have hne : v ≠ "" := by
    rintro rfl
    cases hhash
  constructor
  · intro default
    rw [getBool, hv]
    exact lower_hash hhash
  · intro default
    rw [getInt, hv]
    simp only [if_neg hne, readInt_hash hhash, Option.getD_none]
  · refine ⟨v, ?_, hhash⟩
    rw [require, hv]
    exact if_neg hne

end Secrets

end System2
