import System2.Foundation.Numeral
import System2.Foundation.OrderedDict

/-!
# Python values that come from JSON

The values a JSON text decodes to, with the conversions Python code applies to
them: truth, `str`, `repr`, `float`, `int` and look-up in an object. Built-in
exceptions are named by their class.

## Implementation notes

An object is a list of entries; look-up takes the first entry of a key, and a
decoded object has each key once. Text is a sequence of Unicode scalars. A
non-ASCII character is taken as printable by `repr`.
-/

namespace Foundation

/-- The built-in exception classes that the conversions raise. -/
inductive PyErr
  | typeError | valueError | overflowError | attributeError | keyError | indexError
  | assertionError | zeroDivisionError | invalidOperation
  deriving DecidableEq, Repr

/-- A decoded JSON value. -/
inductive PyVal
  | null
  | bool (b : Bool)
  | int (n : ℤ)
  | float (x : Binary64)
  | str (s : String)
  | list (xs : List PyVal)
  | dict (kvs : List (String × PyVal))

/-- The entries of a decoded JSON object. -/
abbrev Dict := List (String × PyVal)

namespace Dict

/-- `d.get(key)` as an option: absent is not the same as an explicit null. -/
def get? (d : Dict) (key : String) : Option PyVal :=
  (d.find? fun kv => kv.1 == key).map Prod.snd

/-- `d.get(key)`: null when absent. -/
def get (d : Dict) (key : String) : PyVal := (get? d key).getD .null

/-- `d.get(key, default)`. -/
def getOr (d : Dict) (key : String) (dflt : PyVal) : PyVal := (get? d key).getD dflt

/-- `d[key]`. -/
def index (d : Dict) (key : String) : Except PyErr PyVal :=
  match get? d key with
  | some v => .ok v
  | none => .error .keyError

/-- `d[key] = v`. -/
def set (d : Dict) (key : String) (v : PyVal) : Dict :=
  if d.any fun kv => kv.1 == key then d.map fun kv => if kv.1 == key then (kv.1, v) else kv
  else d ++ [(key, v)]

theorem get?_append (d d' : Dict) (key : String) :
    get? (d ++ d') key = (get? d key).or (get? d' key) := by
  unfold get?
  rw [List.find?_append]
  cases d.find? fun kv => kv.1 == key with
  | none => rfl
  | some kv => rfl

theorem get?_set_self (d : Dict) (key : String) (v : PyVal) : get? (set d key v) key = some v :=
  OrderedDict.get?_put_self d key v

theorem get?_set_of_ne {key other : String} (hne : other ≠ key) (d : Dict) (v : PyVal) :
    get? (set d key v) other = get? d other :=
  OrderedDict.get?_put_of_ne hne d v

theorem get_set_self (d : Dict) (key : String) (v : PyVal) : get (set d key v) key = v := by
  rw [get, get?_set_self]
  rfl

theorem get_set_of_ne {key other : String} (hne : other ≠ key) {d : Dict} {v : PyVal} :
    get (set d key v) other = get d other := by
  rw [get, get?_set_of_ne hne, get]

end Dict

/-- Python's `int` of a float. -/
def Binary64.toInt (x : Binary64) : Except PyErr ℤ :=
  match x.trunc? with
  | some n => .ok n
  | none => .error (match x with | .nan => .valueError | _ => .overflowError)

/-- Python's `round` of a float to an integer. -/
def Binary64.roundInt : Binary64 → Except PyErr ℤ
  | .fin q _ => .ok (roundHalfEven q)
  | .nan => .error .valueError
  | .inf _ => .error .overflowError

/-- The value of an option, or an exception. -/
def orErr {α : Type} (e : PyErr) : Option α → Except PyErr α
  | some a => .ok a
  | none => .error e

theorem orErr_eq_ok_iff {α : Type} {e : PyErr} {o : Option α} {a : α} :
    orErr e o = .ok a ↔ o = some a := by
  cases o with
  | none => simp [orErr]
  | some b => simp [orErr]

theorem orErr_ok {α : Type} {e : PyErr} {o : Option α} {a : α} (h : orErr e o = .ok a) :
    o = some a := orErr_eq_ok_iff.mp h

/-- A computation that succeeds has a result. -/
theorem exists_of_isOk {ε α : Type} {r : Except ε α} (h : r.isOk = true) :
    ∃ a, r = .ok a := by
  cases r with
  | ok a => exact ⟨a, rfl⟩
  | error e => cases h

/-- A computation in two parts succeeds when both do. -/
theorem bind_eq_ok_iff {ε α β : Type} {x : Except ε α} {f : α → Except ε β} {b : β} :
    (x >>= f) = .ok b ↔ ∃ a, x = .ok a ∧ f a = .ok b := by
  cases x with
  | ok a =>
      constructor
      · exact fun h => ⟨a, rfl, h⟩
      · rintro ⟨_, ⟨⟩, h⟩
        exact h
  | error e =>
      constructor
      · exact fun h => nomatch h
      · rintro ⟨_, h, -⟩
        cases h

/-- What a computation in two parts succeeds with. -/
theorem exists_of_bind {ε α β : Type} {x : Except ε α} {f : α → Except ε β} {b : β}
    (h : (x >>= f) = .ok b) : ∃ a, x = .ok a ∧ f a = .ok b := bind_eq_ok_iff.mp h

namespace PyVal

def isNull : PyVal → Bool
  | .null => true
  | _ => false

/-- Equality with a text. -/
def isStr (v : PyVal) (s : String) : Bool :=
  match v with
  | .str t => t == s
  | _ => false

theorem eq_of_isStr {v : PyVal} {s : String} (h : v.isStr s = true) : v = .str s := by
  cases v with
  | str t => rw [beq_iff_eq.mp h]
  | _ => cases h

/-- Python's truth value. -/
def truthy : PyVal → Bool
  | .null => false
  | .bool b => b
  | .int n => n != 0
  | .float x => !x.eq .zero
  | .str s => s != ""
  | .list xs => !xs.isEmpty
  | .dict kvs => !kvs.isEmpty

/-- Python's `type(v).__name__`. -/
def typeName : PyVal → String
  | .null => "NoneType"
  | .bool _ => "bool"
  | .int _ => "int"
  | .float _ => "float"
  | .str _ => "str"
  | .list _ => "list"
  | .dict _ => "dict"

/-- A character inside the quotes that `repr` puts around a text. -/
def reprChar (quote c : Char) : List Char :=
  if c = quote ∨ c = '\\' then ['\\', c]
  else if c = '\n' then ['\\', 'n']
  else if c = '\r' then ['\\', 'r']
  else if c = '\t' then ['\\', 't']
  else if c.toNat < 32 ∨ c.toNat = 127 then
    ['\\', 'x', Nat.digitChar (c.toNat / 16), Nat.digitChar (c.toNat % 16)]
  else [c]

/-- Python's `repr` of a text. -/
def reprStr (s : String) : String :=
  let chars := s.toList
  let quote := if chars.contains '\'' && !chars.contains '"' then '"' else '\''
  String.ofList ([quote] ++ chars.flatMap (reprChar quote) ++ [quote])

mutual

/-- Python's `repr` of a decoded value. -/
def repr : PyVal → String
  | .null => "None"
  | .bool b => if b then "True" else "False"
  | .int n => toString n
  | .float x => x.repr
  | .str s => reprStr s
  | .list xs => "[" ++ reprItems xs ++ "]"
  | .dict kvs => "\x7b" ++ reprEntries kvs ++ "\x7d"

def reprItems : List PyVal → String
  | [] => ""
  | [x] => repr x
  | x :: y :: rest => repr x ++ ", " ++ reprItems (y :: rest)

def reprEntries : List (String × PyVal) → String
  | [] => ""
  | [(k, v)] => reprStr k ++ ": " ++ repr v
  | (k, v) :: e :: rest => reprStr k ++ ": " ++ repr v ++ ", " ++ reprEntries (e :: rest)

end

/-- Python's `str` of a decoded value. -/
def toStr : PyVal → String
  | .str s => s
  | v => v.repr

/-- Python's `float` of a decoded value. -/
def toFloat : PyVal → Except PyErr Binary64
  | .bool b => .ok (.ofRat (if b then 1 else 0))
  | .int n => orErr .overflowError (Binary64.ofInt? n)
  | .float x => .ok x
  | .str s => orErr .valueError (readFloat s)
  | _ => .error .typeError

/-- Python's `int` of a decoded value. -/
def toInt : PyVal → Except PyErr ℤ
  | .bool b => .ok (if b then 1 else 0)
  | .int n => .ok n
  | .float x => x.toInt
  | .str s => orErr .valueError (readInt s)
  | _ => .error .typeError

/-- The number a value stands for, before any rounding. -/
def rational? : PyVal → Option ℚ
  | .bool b => some (if b then 1 else 0)
  | .int n => some n
  | .float (.fin q _) => some q
  | .str s => readDecimal s
  | _ => none

/-- A finite nonzero float read from a value is the rounding of the value's number. -/
theorem toFloat_eq_ofRat {v : PyVal} {x : Binary64} (h : v.toFloat = .ok x)
    (hfin : x.isFinite = true) (hzero : x.eq .zero = false) :
    ∃ q, v.rational? = some q ∧ x = .ofRat q := by
  cases v with
  | bool b => exact ⟨_, rfl, (Except.ok.inj h).symm⟩
  | int n => exact ⟨n, rfl, Binary64.ofInt?_eq_ofRat (orErr_ok h)⟩
  | float y =>
      cases h
      cases x with
      | fin q valid => exact ⟨q, rfl, (Binary64.ofRat_fin valid).symm⟩
      | nan => cases hfin
      | inf negative => cases hfin
  | str s => exact readFloat_eq_ofRat (orErr_ok h) hfin hzero
  | null => cases h
  | list xs => cases h
  | dict kvs => cases h

/-- A whole number that reads as a finite float reads as a whole one. -/
theorem toFloat_whole {v : PyVal} {x : Binary64} {n : ℤ} (h : v.toFloat = .ok x)
    (hfin : x.isFinite = true) (hwhole : v.rational? = some (n : ℚ)) :
    ∃ (k : ℤ) (valid : nearest k = k ∧ |(k : ℚ)| < overflowBound), x = .fin k valid := by
  cases hzero : x.eq .zero with
  | true =>
      cases x with
      | fin q valid =>
          obtain rfl : q = 0 := by simpa [Binary64.zero] using hzero
          exact ⟨0, by simpa using valid, by simp⟩
      | nan => cases hfin
      | inf negative => cases hfin
  | false =>
      obtain ⟨q, hq, rfl⟩ := toFloat_eq_ofRat h hfin hzero
      obtain rfl := Option.some.inj (hq.symm.trans hwhole)
      obtain ⟨valid, hx⟩ := Binary64.exists_fin_of_ofRat rfl hfin
      obtain ⟨k, hk⟩ := nearest_int n
      rw [hx]
      simp only [hk] at valid ⊢
      exact ⟨k, valid, rfl⟩

/-- The entries of an object; no other value has entries. -/
def entries : PyVal → Dict
  | .dict kvs => kvs
  | _ => []

/-- `v[key]` for a text `key`. -/
def item (v : PyVal) (key : String) : Except PyErr PyVal :=
  match v with
  | .dict d => Dict.index d key
  | _ => .error .typeError

/-- `v[key] = w` for a text `key`. -/
def setItem (v : PyVal) (key : String) (w : PyVal) : Except PyErr PyVal :=
  match v with
  | .dict d => .ok (.dict (Dict.set d key w))
  | _ => .error .typeError

/-- What a loop over a value goes through. -/
def iter : PyVal → Except PyErr (List PyVal)
  | .list xs => .ok xs
  | .dict kvs => .ok (kvs.map fun kv => .str kv.1)
  | .str s => .ok (s.toList.map fun c => .str (String.ofList [c]))
  | _ => .error .typeError

/-- `v.get(key)` on a value of any type. -/
def getAttrGet (v : PyVal) (key : String) : Except PyErr PyVal :=
  match v with
  | .dict d => .ok (Dict.get d key)
  | _ => .error .attributeError

/-- `v.get(key, default)` on a value of any type. -/
def getAttrOr (v : PyVal) (key : String) (dflt : PyVal) : Except PyErr PyVal :=
  match v with
  | .dict d => .ok (Dict.getOr d key dflt)
  | _ => .error .attributeError

/-- `v[0]` of a value that is not empty. -/
def first : PyVal → Except PyErr PyVal
  | .list (x :: _) => .ok x
  | .list [] => .error .indexError
  | .str s => orErr .indexError (s.toList.head?.map fun c => .str (String.ofList [c]))
  | .dict _ => .error .keyError
  | _ => .error .typeError

/-- `v[-1]` of a value that is not empty. -/
def last : PyVal → Except PyErr PyVal
  | .list xs => orErr .indexError xs.getLast?
  | .str s => orErr .indexError (s.toList.getLast?.map fun c => .str (String.ofList [c]))
  | .dict _ => .error .keyError
  | _ => .error .typeError

/-- `float(v or 0.0)`. -/
def floatOrZero (v : PyVal) : Except PyErr Binary64 :=
  if v.truthy then v.toFloat else .ok .zero

/-- `float(v) if v else None`. -/
def floatIf (v : PyVal) : Except PyErr (Option Binary64) :=
  if v.truthy then v.toFloat.map some else .ok none

/-- `str(v or "")`. -/
def strOrEmpty (v : PyVal) : String := if v.truthy then v.toStr else ""

/-- `(v or {}).get(key)`. -/
def orEmptyGet (v : PyVal) (key : String) : Except PyErr PyVal :=
  if v.truthy then v.getAttrGet key else .ok .null

@[simp] theorem entries_dict (kvs : Dict) : (PyVal.dict kvs).entries = kvs := rfl

/-- A value that is not truthy has no entries. -/
theorem entries_of_not_truthy {v : PyVal} (h : v.truthy = false) : v.entries = [] := by
  cases v with
  | dict kvs =>
      cases kvs with
      | nil => rfl
      | cons kv kvs => cases h
  | _ => rfl

@[simp] theorem toStr_str (s : String) : (PyVal.str s).toStr = s := rfl

end PyVal

/-- `None` or a text, as a message field. -/
def optionalText : Option String → PyVal
  | some s => .str s
  | none => .null

/-- One piece of a formatted text: literal text, a value with its conversion, or a
float with a number of decimals. -/
inductive Frag
  | lit (s : String)
  | val (v : PyVal)
  | repr (v : PyVal)
  | fixed (x : Binary64) (decimals : ℕ)

def Frag.render : Frag → String
  | .lit s => s
  | .val v => v.toStr
  | .repr v => v.repr
  | .fixed x decimals => x.fixedText decimals

/-- A formatted text, kept as its pieces. -/
abbrev FString := List Frag

def FString.render (f : FString) : String := String.join (f.map Frag.render)

end Foundation
