import Mathlib.Data.List.TakeWhile
import System2.Foundation.JsonSpans

/-!
# Reading JSON text

`json.loads` as a parser with fuel. It reads back every text that `json.dumps` lays
out, and a text that it reads is read by an automaton that tells strings from what
stands between them.
-/

namespace Foundation
namespace JsonText

def skipBlanks (s : Text) : Text := s.dropWhile isBlank

/-- What follows a mark that may stand behind blanks. -/
def expect (mark : Char) (s : Text) : Option Text :=
  match skipBlanks s with
  | [] => none
  | c :: rest => if c = mark then some rest else none

/-- A literal up to its closing quote, and what follows it. -/
def scanLiteral : Spot → Text → Option (Text × Text)
  | _, [] => none
  | q, c :: rest =>
      if q = .plain ∧ c = '"' then some ([], rest)
      else (q.read c).bind fun q' => (scanLiteral q' rest).map fun p => (c :: p.1, p.2)

/-- The longest run of scalar marks has to be a token: behind a shorter one no value
could end. -/
def readScalar (s : Text) : Option (Json Text × Text) :=
  if h : isScalarToken (s.takeWhile isScalarMark) = true then
    some (.scalar ⟨s.takeWhile isScalarMark, h⟩, s.dropWhile isScalarMark)
  else none

mutual
def parseValue : ℕ → Text → Option (Json Text × Text)
  | 0, _ => none
  | fuel + 1, s =>
      match expect '"' s, expect '[' s, expect '{' s with
      | some t, _, _ => (scanLiteral .plain t).map fun p => (.str p.1, p.2)
      | none, some t, _ =>
          match expect ']' t with
          | some u => some (.arr [], u)
          | none =>
              (parseValue fuel t).bind fun p =>
                (parseItems fuel p.2).map fun q => (.arr (p.1 :: q.1), q.2)
      | none, none, some t =>
          match expect '}' t with
          | some u => some (.obj [], u)
          | none =>
              (parseMember fuel t).bind fun p =>
                (parseMembers fuel p.2).map fun q => (.obj (p.1 :: q.1), q.2)
      | none, none, none => readScalar (skipBlanks s)

/-- The items behind the first one. -/
def parseItems : ℕ → Text → Option (List (Json Text) × Text)
  | 0, _ => none
  | fuel + 1, s =>
      match expect ']' s with
      | some t => some ([], t)
      | none =>
          (expect ',' s).bind fun t =>
            (parseValue fuel t).bind fun p =>
              (parseItems fuel p.2).map fun q => (p.1 :: q.1, q.2)

def parseMember : ℕ → Text → Option ((Text × Json Text) × Text)
  | 0, _ => none
  | fuel + 1, s =>
      (expect '"' s).bind fun t =>
        (scanLiteral .plain t).bind fun key =>
          (expect ':' key.2).bind fun u =>
            (parseValue fuel u).map fun p => ((key.1, p.1), p.2)

/-- The members behind the first one. -/
def parseMembers : ℕ → Text → Option (List (Text × Json Text) × Text)
  | 0, _ => none
  | fuel + 1, s =>
      match expect '}' s with
      | some t => some ([], t)
      | none =>
          (expect ',' s).bind fun t =>
            (parseMember fuel t).bind fun p =>
              (parseMembers fuel p.2).map fun q => (p.1 :: q.1, q.2)
end

/-- `json.loads`; `none` where it raises. A string is kept as its literal, which is how
`json.dumps` writes it again. -/
def loads (s : Text) : Option (Json Text) :=
  (parseValue (s.length + 1) s).bind fun p => if skipBlanks p.2 = [] then some p.1 else none

/-! ## Written text is read back -/

variable {c mark : Char} {r s t rest : Text} {fuel : ℕ}

theorem expect_self (hc : isBlank c = false) : expect c (c :: rest) = some rest := by
  rw [expect, skipBlanks, List.dropWhile_cons_of_neg (by rw [hc]; exact Bool.false_ne_true)]
  exact if_pos rfl

theorem expect_other (hc : isBlank c = false) (hne : c ≠ mark) :
    expect mark (c :: rest) = none := by
  rw [expect, skipBlanks, List.dropWhile_cons_of_neg (by rw [hc]; exact Bool.false_ne_true)]
  exact if_neg hne

theorem skipBlanks_of_head (hc : isBlank c = false) : skipBlanks (c :: rest) = c :: rest :=
  List.dropWhile_cons_of_neg (by rw [hc]; exact Bool.false_ne_true)

theorem scanLiteral_append {q : Spot} (hr : r.foldlM Spot.read q = some .plain) :
    scanLiteral q (r ++ '"' :: rest) = some (r, rest) := by
  induction r generalizing q with
  | nil =>
      obtain rfl : q = .plain := Option.some.inj hr
      exact if_pos ⟨rfl, rfl⟩
  | cons c tail ih =>
      rw [List.foldlM_cons] at hr
      obtain ⟨q', hq', htail⟩ := Option.bind_eq_some_iff.mp hr
      have hopen : ¬ (q = .plain ∧ c = '"') := by
        rintro ⟨rfl, rfl⟩
        have hquote : Spot.plain.read '"' = none := by decide
        exact Option.some_ne_none q' (hq'.symm.trans hquote)
      rw [List.cons_append, scanLiteral, if_neg hopen, hq', Option.bind_some, ih htail,
        Option.map_some]

/-- No scalar goes on in what follows. -/
def Ends (rest : Text) : Prop := ∀ c ∈ rest.head?, isScalarMark c = false

theorem readScalar_token (value : Scalar) (hrest : Ends rest) :
    readScalar (value.token ++ rest) = some (.scalar value, rest) := by
  have hmarks : ∀ c ∈ value.token, isScalarMark c = true := by
    have htoken := value.isToken
    simp only [isScalarToken, Bool.and_eq_true, List.all_eq_true] at htoken
    exact htoken.1
  have hstop : rest.takeWhile isScalarMark = [] ∧ rest.dropWhile isScalarMark = rest := by
    cases rest with
    | nil => exact ⟨rfl, rfl⟩
    | cons c tail =>
        have hc : ¬ isScalarMark c = true := by
          rw [hrest c rfl]
          exact Bool.false_ne_true
        exact ⟨List.takeWhile_cons_of_neg hc, List.dropWhile_cons_of_neg hc⟩
  have htake : (value.token ++ rest).takeWhile isScalarMark = value.token := by
    rw [List.takeWhile_append_of_pos hmarks, hstop.1, List.append_nil]
  have hdrop : (value.token ++ rest).dropWhile isScalarMark = rest := by
    rw [List.dropWhile_append_of_pos hmarks, hstop.2]
  have htoken : isScalarToken ((value.token ++ rest).takeWhile isScalarMark) = true := by
    rw [htake]
    exact value.isToken
  rw [readScalar, dif_pos htoken, hdrop]
  simp only [htake]

/-- The characters a value may begin with. -/
def isOpening (c : Char) : Bool := "\"[\x7b".toList.contains c || isScalarMark c

theorem isOpening_spec (hc : isOpening c = true) :
    isBlank c = false ∧ c ≠ ']' ∧ c ≠ '}' := by
  have hall : ∀ c ∈ "\"[\x7b".toList ++ "+-.0123456789eEnultrefasNIiy".toList,
      isBlank c = false ∧ c ≠ ']' ∧ c ≠ '}' := each (by decide)
  apply hall
  simpa only [isOpening, isScalarMark, Bool.or_eq_true, List.contains_iff_mem,
    List.mem_append] using hc

theorem token_head (value : Scalar) :
    ∃ c tail, value.token = c :: tail ∧ isScalarMark c = true := by
  obtain ⟨token, htoken⟩ := value
  cases token with
  | nil => exact absurd htoken (by decide)
  | cons c tail =>
      simp only [isScalarToken, List.all_cons, Bool.and_eq_true] at htoken
      exact ⟨c, tail, rfl, htoken.1.1⟩

theorem Json.write_head (d : Json Text) (rest : Text) :
    ∃ c tail, d.write rest = c :: tail ∧ isOpening c = true := by
  cases d with
  | scalar value =>
      obtain ⟨c, tail, htoken, hc⟩ := token_head value
      exact ⟨c, tail ++ rest, by rw [write, htoken, List.cons_append],
        by rw [isOpening, hc, Bool.or_true]⟩
  | str r => exact ⟨'"', _, rfl, rfl⟩
  | arr items => cases items <;> exact ⟨'[', _, rfl, rfl⟩
  | obj members => cases members <;> exact ⟨'{', _, rfl, rfl⟩

theorem expect_close_write (d : Json Text) :
    expect ']' (d.write rest) = none ∧ expect '}' (d.write rest) = none := by
  obtain ⟨c, tail, hwrite, hc⟩ := d.write_head rest
  obtain ⟨hblank, hbracket, hbrace⟩ := isOpening_spec hc
  rw [hwrite]
  exact ⟨expect_other hblank hbracket, expect_other hblank hbrace⟩

theorem ends_writeItems (items : List (Json Text)) : Ends (Json.writeItems items rest) := by
  cases items <;> simp [Json.writeItems, Ends] <;> decide

theorem ends_writeMembers (members : List (Text × Json Text)) :
    Ends (Json.writeMembers members rest) := by
  cases members <;> simp [Json.writeMembers, Ends] <;> decide

/-- A literal that `json.loads` accepts. -/
def Readable (r : Text) : Prop := r.foldlM Spot.read .plain = some .plain

theorem Written.readable (h : Written r) : Readable r := foldlM_read_of_written h

theorem parseValue_space {p : Json Text × Text} (h : parseValue fuel s = some p) :
    parseValue fuel (' ' :: s) = some p := by
  cases fuel with
  | zero => exact h
  | succ fuel => exact h

theorem parseMember_space {p : (Text × Json Text) × Text} (h : parseMember fuel s = some p) :
    parseMember fuel (' ' :: s) = some p := by
  cases fuel with
  | zero => exact h
  | succ fuel => exact h

mutual
/-- Every call passes at least one character, so the length of the text is fuel enough. -/
theorem parseValue_write : ∀ (d : Json Text) {fuel : ℕ} {rest : Text},
    (∀ r ∈ d.strings, Readable r) → (d.write rest).length ≤ fuel → Ends rest →
      parseValue fuel (d.write rest) = some (d, rest)
  | d, 0, rest, _, hfuel, _ => by
      obtain ⟨c, tail, hwrite, _⟩ := d.write_head rest
      rw [hwrite] at hfuel
      exact absurd hfuel (Nat.not_succ_le_zero _)
  | .scalar value, fuel + 1, rest, _, _, hrest => by
      obtain ⟨c, tail, htoken, hc⟩ := token_head value
      have hall : ∀ c ∈ "+-.0123456789eEnultrefasNIiy".toList,
          isBlank c = false ∧ c ≠ '"' ∧ c ≠ '[' ∧ c ≠ '{' := each (by decide)
      obtain ⟨hblank, hquote, hbracket, hbrace⟩ := hall c (List.contains_iff_mem.mp hc)
      have hread := readScalar_token value hrest
      simp only [Json.write, htoken, List.cons_append] at hread ⊢
      rw [parseValue, expect_other hblank hquote, expect_other hblank hbracket,
        expect_other hblank hbrace]
      simp only [skipBlanks_of_head hblank, hread]
  | .str r, fuel + 1, rest, hr, _, _ => by
      have hscan : scanLiteral .plain (r ++ '"' :: rest) = some (r, rest) :=
        scanLiteral_append (hr r List.mem_cons_self)
      rw [Json.write, parseValue, expect_self rfl]
      simp only [hscan, Option.map_some]
  | .arr [], fuel + 1, rest, _, _, _ => rfl
  | .arr (d :: items), fuel + 1, rest, hr, hfuel, _ => by
      have hlen : (d.write (Json.writeItems items rest)).length ≤ fuel :=
        Nat.le_of_succ_le_succ hfuel
      have hd := parseValue_write d (fun r h => hr r (List.mem_append_left _ h)) hlen
        (ends_writeItems items)
      have hitems := parseItems_write items (fun r h => hr r (List.mem_append_right _ h))
        ((d.length_le_write _).trans hlen)
      rw [Json.write, parseValue, expect_other rfl (by decide), expect_self rfl]
      simp only [expect_close_write d, hd, hitems, Option.bind_some, Option.map_some]
  | .obj [], fuel + 1, rest, _, _, _ => rfl
  | .obj ((key, d) :: members), fuel + 1, rest, hr, hfuel, _ => by
      have hends : Ends (Json.writeMembers members rest) := ends_writeMembers members
      have hmember := parseMember_write key d (hr key List.mem_cons_self)
        (fun r h => hr r (List.mem_cons_of_mem key (List.mem_append_left _ h)))
        (Nat.le_of_succ_le_succ hfuel) hends
      have hlen : (Json.writeMembers members rest).length ≤ fuel := by
        have := d.length_le_write (Json.writeMembers members rest)
        simp only [Json.write, List.length_cons, List.length_append] at hfuel
        omega
      have hmembers := parseMembers_write members
        (fun r h => hr r (List.mem_cons_of_mem key (List.mem_append_right _ h))) hlen
      have hopen : ∀ t, expect '}' ('"' :: t) = none := fun t => expect_other rfl (by decide)
      rw [Json.write, parseValue, expect_other rfl (by decide), expect_other rfl (by decide),
        expect_self rfl]
      simp only [hopen, hmember, hmembers, Option.bind_some, Option.map_some]

theorem parseItems_write : ∀ (items : List (Json Text)) {fuel : ℕ} {rest : Text},
    (∀ r ∈ Json.itemStrings items, Readable r) →
      (Json.writeItems items rest).length ≤ fuel →
        parseItems fuel (Json.writeItems items rest) = some (items, rest)
  | [], 0, rest, _, hfuel => absurd hfuel (Nat.not_succ_le_zero _)
  | _ :: _, 0, rest, _, hfuel => absurd hfuel (Nat.not_succ_le_zero _)
  | [], fuel + 1, rest, _, _ => rfl
  | d :: items, fuel + 1, rest, hr, hfuel => by
      have hlen : (d.write (Json.writeItems items rest)).length ≤ fuel := by
        simp only [Json.writeItems, List.length_cons] at hfuel
        omega
      have hd := parseValue_space (parseValue_write d
        (fun r h => hr r (List.mem_append_left _ h)) hlen (ends_writeItems items))
      have hitems := parseItems_write items (fun r h => hr r (List.mem_append_right _ h))
        ((d.length_le_write _).trans hlen)
      rw [Json.writeItems, parseItems, expect_other rfl (by decide), expect_self rfl]
      simp only [hd, hitems, Option.bind_some, Option.map_some]

theorem parseMember_write : ∀ (key : Text) (d : Json Text) {fuel : ℕ} {rest : Text},
    Readable key → (∀ r ∈ d.strings, Readable r) →
      ('"' :: (key ++ '"' :: ':' :: ' ' :: d.write rest)).length ≤ fuel → Ends rest →
        parseMember fuel ('"' :: (key ++ '"' :: ':' :: ' ' :: d.write rest)) =
          some ((key, d), rest)
  | key, d, 0, rest, _, _, hfuel, _ => absurd hfuel (Nat.not_succ_le_zero _)
  | key, d, fuel + 1, rest, hkey, hr, hfuel, hrest => by
      have hlen : (d.write rest).length ≤ fuel := by
        simp only [List.length_cons, List.length_append] at hfuel
        omega
      have hd := parseValue_space (parseValue_write d hr hlen hrest)
      rw [parseMember, expect_self rfl, Option.bind_some, scanLiteral_append hkey,
        Option.bind_some, expect_self rfl, Option.bind_some, hd, Option.map_some]

theorem parseMembers_write : ∀ (members : List (Text × Json Text)) {fuel : ℕ} {rest : Text},
    (∀ r ∈ Json.memberStrings members, Readable r) →
      (Json.writeMembers members rest).length ≤ fuel →
        parseMembers fuel (Json.writeMembers members rest) = some (members, rest)
  | [], 0, rest, _, hfuel => absurd hfuel (Nat.not_succ_le_zero _)
  | _ :: _, 0, rest, _, hfuel => absurd hfuel (Nat.not_succ_le_zero _)
  | [], fuel + 1, rest, _, _ => rfl
  | (key, d) :: members, fuel + 1, rest, hr, hfuel => by
      simp only [Json.writeMembers, List.length_cons] at hfuel
      have hends : Ends (Json.writeMembers members rest) := ends_writeMembers members
      have hfits : ('"' :: (key ++ '"' :: ':' :: ' ' ::
          d.write (Json.writeMembers members rest))).length ≤ fuel := by
        rw [List.length_cons]
        omega
      have hmember := parseMember_space (parseMember_write key d (hr key List.mem_cons_self)
        (fun r h => hr r (List.mem_cons_of_mem key (List.mem_append_left _ h))) hfits hends)
      have hlen : (Json.writeMembers members rest).length ≤ fuel := by
        have := d.length_le_write (Json.writeMembers members rest)
        simp only [List.length_cons, List.length_append] at hfuel
        omega
      have hmembers := parseMembers_write members
        (fun r h => hr r (List.mem_cons_of_mem key (List.mem_append_right _ h))) hlen
      rw [Json.writeMembers, parseMembers, expect_other rfl (by decide), expect_self rfl]
      simp only [hmember, hmembers, Option.bind_some, Option.map_some]
end

/-- What `json.dumps` lays out, `json.loads` reads back. -/
theorem loads_dumps {d : Json Text} (hd : ∀ r ∈ d.strings, Readable r) :
    loads d.dumps = some d := by
  have hends : Ends [] := fun c hc => absurd hc (by simp)
  rw [loads, Json.dumps, parseValue_write d hd (Nat.le_succ _) hends, Option.bind_some]
  exact if_pos rfl

/-! ## What is read stands outside strings at its end -/

/-- Whether a text stands outside strings, in a string, or behind a backslash in one. -/
inductive Mode
  | out
  | lit
  | esc
  deriving DecidableEq, Repr

def Mode.step : Mode → Char → Option Mode
  | .out, c => if c = '"' then some .lit else if isOutside c then some .out else none
  | .lit, c => if c = '\\' then some .esc else if c = '"' then some .out else some .lit
  | .esc, _ => some .lit

/-- What a parser passes leads from outside strings to outside strings. -/
def Passes (s rest : Text) : Prop :=
  ∃ w, s = w ++ rest ∧ w.foldlM Mode.step .out = some .out

theorem Passes.refl (s : Text) : Passes s s := ⟨[], rfl, rfl⟩

theorem Passes.trans {s t u : Text} (hst : Passes s t) (htu : Passes t u) : Passes s u := by
  obtain ⟨w, rfl, hw⟩ := hst
  obtain ⟨v, rfl, hv⟩ := htu
  refine ⟨w ++ v, (List.append_assoc w v u).symm, ?_⟩
  rw [List.foldlM_append, hw]
  exact hv

theorem foldlM_outside {w : Text} (hw : ∀ c ∈ w, isOutside c = true) :
    w.foldlM Mode.step .out = some .out := by
  induction w with
  | nil => rfl
  | cons c tail ih =>
      obtain ⟨hc, htail⟩ := List.forall_mem_cons.mp hw
      have hquote : c ≠ '"' := by
        rintro rfl
        exact absurd hc (by decide)
      have hstep : Mode.step .out c = some .out := by
        rw [Mode.step, if_neg hquote, if_pos hc]
      rw [List.foldlM_cons, hstep]
      exact ih htail

theorem passes_skipBlanks (s : Text) : Passes s (skipBlanks s) := by
  refine ⟨s.takeWhile isBlank, List.takeWhile_append_dropWhile.symm, foldlM_outside ?_⟩
  intro c hc
  rw [isOutside, List.mem_takeWhile_imp hc, Bool.true_or]

/-- A mark that is found stands behind blanks. -/
theorem skipBlanks_of_expect (h : expect mark s = some t) : skipBlanks s = mark :: t := by
  rw [expect] at h
  cases hs : skipBlanks s with
  | nil => rw [hs] at h; cases h
  | cons c rest =>
      rw [hs] at h
      by_cases hc : c = mark
      · obtain rfl : rest = t := Option.some.inj ((if_pos hc).symm.trans h)
        rw [hc]
      · exact absurd ((if_neg hc).symm.trans h) (Option.some_ne_none t).symm

theorem passes_expect (hmark : isOutside mark = true) (h : expect mark s = some t) :
    Passes s t := by
  apply (passes_skipBlanks s).trans
  rw [skipBlanks_of_expect h]
  exact ⟨[mark], rfl, foldlM_outside (List.forall_mem_singleton.mpr hmark)⟩

theorem passes_readScalar {p : Json Text × Text} (h : readScalar s = some p) : Passes s p.2 := by
  rw [readScalar] at h
  split_ifs at h
  obtain rfl := Option.some.inj h
  refine ⟨s.takeWhile isScalarMark, List.takeWhile_append_dropWhile.symm, foldlM_outside ?_⟩
  intro c hc
  rw [isOutside, isLayout, List.mem_takeWhile_imp hc, Bool.or_true, Bool.or_true]

/-- A literal that is scanned is readable, and its quote follows it. -/
theorem scanLiteral_spec {q : Spot} {p : Text × Text} (h : scanLiteral q s = some p) :
    s = p.1 ++ '"' :: p.2 ∧ p.1.foldlM Spot.read q = some .plain := by
  induction s generalizing q p with
  | nil => cases h
  | cons c rest ih =>
      rw [scanLiteral] at h
      split_ifs at h with hclose
      · obtain rfl := Option.some.inj h
        obtain ⟨rfl, rfl⟩ := hclose
        exact ⟨rfl, rfl⟩
      · obtain ⟨q', hq', hrest⟩ := Option.bind_eq_some_iff.mp h
        obtain ⟨p', hp', rfl⟩ := Option.map_eq_some_iff.mp hrest
        obtain ⟨htext, hread⟩ := ih hp'
        refine ⟨congrArg (c :: ·) htext, ?_⟩
        rw [List.foldlM_cons, hq']
        exact hread

/-- The mode of a spot in a literal. -/
def Spot.mode : Spot → Mode
  | .plain => .lit
  | .esc => .esc
  | .hex _ => .lit

theorem Spot.mode_read {q q' : Spot} (h : q.read c = some q') :
    q.mode.step c = some q'.mode := by
  have hall : ∀ d ∈ "0123456789abcdefABCDEF".toList, Mode.step .lit d = some .lit :=
    each (by decide)
  have hhex : isHex c = true → Mode.step .lit c = some .lit := fun hc =>
    hall c (List.contains_iff_mem.mp hc)
  simp only [Spot.read] at h
  cases q with
  | plain =>
      simp only [Spot.step] at h
      split_ifs at h with hslash hself
      · obtain rfl := Option.some.inj h
        exact if_pos hslash
      · obtain rfl := Option.some.inj h
        simp only [Spot.mode, Mode.step, if_neg hslash, if_neg hself.1]
  | esc =>
      simp only [Spot.step] at h
      split_ifs at h <;> obtain rfl := Option.some.inj h <;> rfl
  | hex left =>
      cases left with
      | zero =>
          simp only [Spot.step] at h
          split_ifs at h with hdigit
          obtain rfl := Option.some.inj h
          exact hhex hdigit
      | succ left =>
          simp only [Spot.step] at h
          split_ifs at h with hdigit
          obtain rfl := Option.some.inj h
          exact hhex hdigit

/-- A literal keeps a text in its string. -/
theorem foldlM_mode_of_read {q q' : Spot} (h : r.foldlM Spot.read q = some q') :
    r.foldlM Mode.step q.mode = some q'.mode := by
  induction r generalizing q with
  | nil =>
      obtain rfl := Option.some.inj h
      rfl
  | cons c tail ih =>
      rw [List.foldlM_cons] at h ⊢
      obtain ⟨q₁, hq₁, htail⟩ := Option.bind_eq_some_iff.mp h
      rw [Spot.mode_read hq₁]
      exact ih htail

theorem foldlM_quoted (hr : Readable r) :
    ('"' :: (r ++ ['"'])).foldlM Mode.step .out = some .out := by
  have hlit : r.foldlM Mode.step .lit = some .lit := foldlM_mode_of_read hr
  have hopen : Mode.step .out '"' = some .lit := rfl
  rw [List.foldlM_cons, hopen, Option.bind_eq_bind, Option.bind_some, List.foldlM_append, hlit]
  rfl

theorem passes_literal {p : Text × Text} (hs : expect '"' s = some t)
    (ht : scanLiteral .plain t = some p) : Passes s p.2 := by
  obtain ⟨htext, hread⟩ := scanLiteral_spec ht
  apply (passes_skipBlanks s).trans
  rw [skipBlanks_of_expect hs, htext]
  exact ⟨'"' :: (p.1 ++ ['"']), by simp, foldlM_quoted hread⟩

/-- What each part of the parser passes with some fuel. -/
structure ParserPasses (fuel : ℕ) : Prop where
  value : ∀ {s p}, parseValue fuel s = some p → Passes s p.2
  items : ∀ {s p}, parseItems fuel s = some p → Passes s p.2
  member : ∀ {s p}, parseMember fuel s = some p → Passes s p.2
  members : ∀ {s p}, parseMembers fuel s = some p → Passes s p.2

theorem ParserPasses.value_step (h : ParserPasses fuel) {p : Json Text × Text}
    (hp : parseValue (fuel + 1) s = some p) : Passes s p.2 := by
  rw [parseValue] at hp
  split at hp
  · next t hquote =>
      obtain ⟨lit, hlit, rfl⟩ := Option.map_eq_some_iff.mp hp
      exact passes_literal hquote hlit
  · next t _ hopen =>
      have hs := passes_expect rfl hopen
      split at hp
      · next u hclose =>
          obtain rfl := Option.some.inj hp
          exact hs.trans (passes_expect rfl hclose)
      · obtain ⟨d, hd, hrest⟩ := Option.bind_eq_some_iff.mp hp
        obtain ⟨items, hitems, rfl⟩ := Option.map_eq_some_iff.mp hrest
        exact (hs.trans (h.value hd)).trans (h.items hitems)
  · next t _ _ hopen =>
      have hs := passes_expect rfl hopen
      split at hp
      · next u hclose =>
          obtain rfl := Option.some.inj hp
          exact hs.trans (passes_expect rfl hclose)
      · obtain ⟨d, hd, hrest⟩ := Option.bind_eq_some_iff.mp hp
        obtain ⟨members, hmembers, rfl⟩ := Option.map_eq_some_iff.mp hrest
        exact (hs.trans (h.member hd)).trans (h.members hmembers)
  · exact (passes_skipBlanks s).trans (passes_readScalar hp)

theorem ParserPasses.items_step (h : ParserPasses fuel) {p : List (Json Text) × Text}
    (hp : parseItems (fuel + 1) s = some p) : Passes s p.2 := by
  rw [parseItems] at hp
  split at hp
  · next t hclose =>
      obtain rfl := Option.some.inj hp
      exact passes_expect rfl hclose
  · obtain ⟨t, hcomma, hrest⟩ := Option.bind_eq_some_iff.mp hp
    obtain ⟨d, hd, hrest⟩ := Option.bind_eq_some_iff.mp hrest
    obtain ⟨items, hitems, rfl⟩ := Option.map_eq_some_iff.mp hrest
    have hrest := h.items hitems
    exact ((passes_expect rfl hcomma).trans (h.value hd)).trans hrest

theorem ParserPasses.member_step (h : ParserPasses fuel) {p : (Text × Json Text) × Text}
    (hp : parseMember (fuel + 1) s = some p) : Passes s p.2 := by
  rw [parseMember] at hp
  obtain ⟨t, hquote, hrest⟩ := Option.bind_eq_some_iff.mp hp
  obtain ⟨key, hkey, hrest⟩ := Option.bind_eq_some_iff.mp hrest
  obtain ⟨u, hcolon, hrest⟩ := Option.bind_eq_some_iff.mp hrest
  obtain ⟨d, hd, rfl⟩ := Option.map_eq_some_iff.mp hrest
  exact ((passes_literal hquote hkey).trans (passes_expect rfl hcolon)).trans (h.value hd)

theorem ParserPasses.members_step (h : ParserPasses fuel)
    {p : List (Text × Json Text) × Text} (hp : parseMembers (fuel + 1) s = some p) :
    Passes s p.2 := by
  rw [parseMembers] at hp
  split at hp
  · next t hclose =>
      obtain rfl := Option.some.inj hp
      exact passes_expect rfl hclose
  · obtain ⟨t, hcomma, hrest⟩ := Option.bind_eq_some_iff.mp hp
    obtain ⟨d, hd, hrest⟩ := Option.bind_eq_some_iff.mp hrest
    obtain ⟨members, hmembers, rfl⟩ := Option.map_eq_some_iff.mp hrest
    have hrest := h.members hmembers
    exact ((passes_expect rfl hcomma).trans (h.member hd)).trans hrest

theorem parserPasses (fuel : ℕ) : ParserPasses fuel := by
  induction fuel with
  | zero =>
      constructor <;> intro s p hp
      · exact absurd hp (by simp [parseValue])
      · exact absurd hp (by simp [parseItems])
      · exact absurd hp (by simp [parseMember])
      · exact absurd hp (by simp [parseMembers])
  | succ fuel ih => exact ⟨ih.value_step, ih.items_step, ih.member_step, ih.members_step⟩

/-- A text that `json.loads` reads ends outside strings. -/
theorem foldlM_of_loads {d : Json Text} (h : loads s = some d) :
    s.foldlM Mode.step .out = some .out := by
  obtain ⟨p, hp, hrest⟩ := Option.bind_eq_some_iff.mp h
  have hblank : skipBlanks p.2 = [] := by
    by_contra hne
    exact Option.some_ne_none d (hrest.symm.trans (if_neg hne))
  have hpass := ((parserPasses _).value hp).trans (passes_skipBlanks p.2)
  rw [hblank] at hpass
  obtain ⟨w, hw, hout⟩ := hpass
  rwa [hw, List.append_nil]

end JsonText
end Foundation
