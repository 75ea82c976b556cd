import System2.Foundation.PyValue

/-!
# Keyed rows and the upsert statement

A table has at most one row for each key. An upsert inserts a row or, where a row has its
key, updates the other columns of that row. Values are bound by position.
-/

namespace Foundation

/-- The rows of a table by their keys. -/
abbrev KeyedTable := String → Option Dict

/-- `INSERT INTO … ON CONFLICT … DO UPDATE`, with one placeholder for each value. -/
structure Upsert where
  table : String
  keyCol : String
  cols : List String
  placeholder : String

namespace Upsert

variable {u : Upsert} {row : Dict} {t : KeyedTable}

/-- The columns that a conflict updates. -/
def updated (u : Upsert) : List String := u.cols.filter (· != u.keyCol)

/-- The text of the statement. -/
def text (u : Upsert) : String :=
  "INSERT INTO " ++ u.table ++ " (" ++ String.intercalate ", " u.cols ++ ") VALUES (" ++
    String.intercalate ", " (u.cols.map fun _ => u.placeholder) ++ ") ON CONFLICT (" ++ u.keyCol ++
    ") DO UPDATE SET " ++
    String.intercalate ", " (u.updated.map fun c => c ++ "=" ++ u.placeholder)

example : text ⟨"T", "k", ["k", "a", "b"], "?"⟩ =
    "INSERT INTO T (k, a, b) VALUES (?, ?, ?) ON CONFLICT (k) DO UPDATE SET a=?, b=?" := by
  decide +kernel

/-- The parameters for a row: its values, and those of the updated columns once more. -/
def params (u : Upsert) (row : Dict) : List PyVal :=
  row.map Prod.snd ++ u.updated.map row.get

/-- The table after the statement. -/
def store (u : Upsert) (params : List PyVal) (t : KeyedTable) : KeyedTable :=
  let inserted : Dict := u.cols.zip params
  let changes : Dict := u.updated.zip (params.drop u.cols.length)
  fun key =>
    if key = (inserted.get u.keyCol).toStr then
      some (match t key with
        | none => inserted
        | some old => changes ++ old)
    else t key

theorem zip_row (row : Dict) (more : List PyVal) :
    (row.map Prod.fst).zip (row.map Prod.snd ++ more) = row := by
  induction row with
  | nil => rfl
  | cons kv rest ih => simp [ih]

theorem get?_zip_map {cols : List String} {f : String → PyVal} {c : String} (hc : c ∈ cols) :
    Dict.get? (cols.zip (cols.map f)) c = some (f c) := by
  induction cols with
  | nil => cases hc
  | cons first rest ih =>
      by_cases heq : first = c
      · simp [Dict.get?, heq]
      · have hrest : c ∈ rest := (List.mem_cons.mp hc).resolve_left (Ne.symm heq)
        simpa [Dict.get?, heq] using ih hrest

/-- The row of the key has the values of the row that was written, whether it was inserted or
updated. -/
theorem store_get (hcols : u.cols = row.map Prod.fst) :
    ∃ stored, u.store (u.params row) t (row.get u.keyCol).toStr = some stored ∧
      ∀ c ∈ u.updated, stored.get c = row.get c := by
  have hinserted : u.cols.zip (u.params row) = row := hcols ▸ zip_row row _
  have hchanges : (u.params row).drop u.cols.length = u.updated.map row.get := by
    simp [params, hcols]
  simp only [store, hinserted, hchanges, if_true]
  cases t (row.get u.keyCol).toStr with
  | none => exact ⟨row, rfl, fun _ _ => rfl⟩
  | some old =>
      refine ⟨_, rfl, fun c hc => ?_⟩
      rw [Dict.get, Dict.get?_append, get?_zip_map hc]
      rfl

/-- The other rows stay. -/
theorem store_of_ne (hcols : u.cols = row.map Prod.fst) {key : String}
    (hkey : key ≠ (row.get u.keyCol).toStr) : u.store (u.params row) t key = t key := by
  have hinserted : u.cols.zip (u.params row) = row := hcols ▸ zip_row row _
  simp only [store, hinserted]
  exact if_neg hkey

end Upsert

end Foundation
