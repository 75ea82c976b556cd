import System2.Foundation.JsonParse
import System2.Foundation.Numeral
import System2.Foundation.PyValue
import System2.Foundation.Substitution

/-!
# The log formatter (`common/logging.py`)

A record becomes one JSON object on a line. The context is serialized on its own, cut
at 4000 characters and read back before it joins the payload, and the secret patterns
are replaced in the text of the whole payload.

## Implementation notes

A string is the list of its characters. What `default=str` makes of a value is a string
of the context, and keys are strings. A dict that `json.dumps` refuses is given by the
text that `str` shows. The clock is given by the text of `isoformat`.
-/

namespace System2
open Foundation Foundation.JsonText Foundation.Substitution

namespace Logging

/-! ## Masking -/

def masked : Text := "***MASKED***".toList

/-- Lower case as `re.IGNORECASE` compares it: beside the ASCII letters, the long s, the
Kelvin sign and the two Turkish forms of i. -/
def foldCase (c : Char) : Char :=
  if c = '\u017f' then 's'
  else if c = '\u212a' then 'k'
  else if c = '\u0130' ∨ c = '\u0131' then 'i'
  else c.toLower

/-- `api[_-]?key|secret|password|token|authorization|bearer` -/
def keywords : List Text :=
  ["apikey", "api_key", "api-key", "secret", "password", "token", "authorization",
    "bearer"].map String.toList

/-- What follows a key name, in either case of its letters. -/
def dropKeyword (s : Text) : Option Text :=
  (keywords.find? fun k => k.isPrefixOf (s.map foldCase)).map fun k => s.drop k.length

/-- `[:=]`, behind white space. -/
def dropSeparator (s : Text) : Option Text :=
  match s.dropWhile isSpace with
  | [] => none
  | c :: rest => if c = ':' ∨ c = '=' then some rest else none

def nonSpace (c : Char) : Bool := !isSpace c

/-- `_mask_keyed`: the match up to its first separator, which is `=` wherever the match
has one. -/
def maskKeyed (found : Text) : Text :=
  let sep := if '=' ∈ found then '=' else ':'
  found.takeWhile (· ≠ sep) ++ sep :: masked

/-- The first secret pattern: a key name, a separator and a value without spaces. -/
def matchKeyed : Matcher Char := fun s =>
  ((dropKeyword s).bind dropSeparator).bind fun rest =>
    let behind := rest.dropWhile isSpace
    let value := behind.takeWhile nonSpace
    if value = [] then none
    else
      let taken := s.length - behind.length + value.length
      some (taken, maskKeyed (s.take taken))

/-- A pattern of a fixed beginning and a run of characters of one class. -/
def matchToken (head : Text) (inClass : Char → Bool) (least : ℕ) (most : Option ℕ) :
    Matcher Char := fun s =>
  let run := (s.drop head.length).takeWhile inClass
  if head.isPrefixOf s ∧ least ≤ run.length then
    some (head.length + most.elim run.length (min run.length), masked)
  else none

/-- `sk-[A-Za-z0-9]{20,}` -/
def matchSk : Matcher Char := matchToken "sk-".toList Char.isAlphanum 20 none

/-- `AKIA[0-9A-Z]{16}` -/
def matchAkia : Matcher Char :=
  matchToken "AKIA".toList (fun c => c.isDigit || c.isUpper) 16 (some 16)

/-- `_mask` -/
def mask (text : Text) : Text := sub matchAkia (sub matchSk (sub matchKeyed text))

/-! ## The formatter -/

def isIsoMark (c : Char) : Bool := "0123456789-:.T+".toList.contains c

/-- A reading of the UTC clock as `isoformat` writes it. -/
structure UtcIso where
  text : Text
  marks : ∀ c ∈ text, isIsoMark c = true

/-- `.replace("+00:00", "Z")` -/
def UtcIso.stamp (now : UtcIso) : Text := sub (word "+00:00".toList ['Z']) now.text

/-- The `context` of a record: a dict that `json.dumps` serializes, or one that it
refuses, with what `str` shows of it. -/
inductive LogContext
  | entries (members : List (Text × Json Text))
  | refused (shown : Text)

structure LogRecord where
  levelname : Text
  name : Text
  /-- `getMessage` -/
  message : Text
  context : Option LogContext
  /-- `formatException`, where there is `exc_info` -/
  exception : Option Text

def maxContextChars : ℕ := 4000

/-- The value that the text of the context serializes. -/
def contextValue (record : LogRecord) : Json Text :=
  match record.context.getD (.entries []) with
  | .entries members => (Json.obj members).sortKeys.map escape
  | .refused shown => Json.map escape (.obj [("_unserializable".toList, .str shown)])

def contextText (record : LogRecord) : Text := (contextValue record).dumps

/-- The text of the context as it is read back. -/
def keptContext (record : LogRecord) : Text :=
  let text := contextText record
  if maxContextChars < text.length then
    text.take maxContextChars ++ "...<truncated>".toList
  else text

/-- A member of the payload that is a string. -/
def field (key : String) (text : Text) : Text × Json Text :=
  (escape key.toList, .str (escape text))

def payload (now : UtcIso) (correlationId : Text) (record : LogRecord) (context : Json Text) :
    Json Text :=
  .obj ([field "timestamp" now.stamp, field "level" record.levelname,
      field "correlation_id" correlationId, field "component" record.name,
      field "message" (mask record.message), (escape "context".toList, context)] ++
    (record.exception.map fun text => field "exception" (mask text)).toList)

/-- `JsonFormatter.format`: `json.loads` raises a `ValueError` where it cannot read the
text of the context. -/
def format (now : UtcIso) (correlationId : Text) (record : LogRecord) : Except PyErr Text :=
  match loads (keptContext record) with
  | none => .error .valueError
  | some context => .ok (mask (payload now correlationId record context).dumps)

end Logging
end System2
