import System2.Common.LogLines

/-!
# Secrets stored in the context of a record

The keyed pattern wants a separator behind the key name. In the text of a context the
closing quote of the key stands there, so a value is masked by what it says itself and
never because of its key. Two records that differ in one stored secret give the same
line exactly when masking makes the same of the two literals.
-/

namespace System2
open Foundation Foundation.JsonText Foundation.Substitution

namespace Logging

variable {g h r s : Text} {pre post : List (Text × Text)}

/-! ## A literal in a masked text -/

/-- What stands before a literal is masked on its own. -/
theorem maskSpell_append (g : Text) (pre : List (Text × Text)) :
    ∃ front, ∀ r h post,
      maskSpell g (pre ++ (r, h) :: post) = front ++ maskSpell [] ((r, h) :: post) := by
  induction pre generalizing g with
  | nil =>
      refine ⟨g, fun r h post => ?_⟩
      rw [List.nil_append, maskSpell, maskSpell]
      split_ifs <;> rfl
  | cons e rest ih =>
      by_cases he : Closes e.1
      · obtain ⟨front, heq⟩ := ih e.2
        refine ⟨g ++ '"' :: (maskLiteral e.1 ++ '"' :: front), fun r h post => ?_⟩
        rw [List.cons_append, maskSpell, if_pos he, heq]
        simp only [List.append_assoc, List.cons_append]
      · obtain ⟨front, heq⟩ := ih (e.2.dropWhile nonSpace)
        refine ⟨g ++ '"' :: (maskLiteral e.1 ++ '*' :: front), fun r h post => ?_⟩
        rw [List.cons_append, maskSpell, if_neg he, heq]
        simp only [List.append_assoc, List.cons_append]

/-- The beginning of a gap is shown as it is. -/
theorem maskSpell_gap (g h : Text) (post : List (Text × Text)) :
    maskSpell (g ++ h) post = g ++ maskSpell h post := by
  cases post with
  | nil => rfl
  | cons e post =>
      rw [maskSpell, maskSpell]
      split_ifs <;> rw [List.append_assoc]

/-- A quote that stays and one that goes are told apart by what follows them. -/
theorem maskSpell_ne (hl : ∀ c ∈ h, isLayout c = true) (hr : Closes r) (hs : ¬ Closes s) :
    maskSpell [] ((r, h) :: post) ≠ maskSpell [] ((s, h) :: post) := by
  intro heq
  have hgap : maskSpell h post =
      h.takeWhile nonSpace ++ maskSpell (h.dropWhile nonSpace) post := by
    rw [← maskSpell_gap, List.takeWhile_append_dropWhile]
  rw [maskSpell, maskSpell, if_pos hr, if_neg hs, hgap] at heq
  generalize maskSpell (h.dropWhile nonSpace) post = later at heq
  have hsame : (maskLiteral r ++ '"' :: h.takeWhile nonSpace) ++ later =
      (maskLiteral s ++ ['*']) ++ later := by
    simpa only [List.nil_append, List.cons.injEq, true_and, List.append_assoc,
      List.cons_append] using heq
  have hquoted := List.append_cancel_right hsame
  have hlast := congrArg List.getLast? hquoted
  rw [List.getLast?_append_cons, List.getLast?_concat] at hlast
  have hmem := List.mem_of_getLast? hlast
  obtain hquote | hmem := List.mem_cons.mp hmem
  · exact absurd hquote (by decide)
  · exact absurd (hl '*' ((List.takeWhile_sublist _).subset hmem)) (by decide)

/-- Two literals at one place give the same masked text exactly if they are masked to the
same. -/
theorem maskSpell_literal_iff (hl : ∀ c ∈ h, isLayout c = true) :
    maskSpell g (pre ++ (r, h) :: post) = maskSpell g (pre ++ (s, h) :: post) ↔
      mask (r ++ ['"']) = mask (s ++ ['"']) := by
  obtain ⟨front, heq⟩ := maskSpell_append g pre
  rw [heq, heq, List.append_right_inj]
  constructor
  · intro hsame
    by_cases hr : Closes r
    · by_cases hs : Closes s
      · rw [maskSpell, maskSpell, if_pos hr, if_pos hs] at hsame
        have hrest := (List.cons.inj hsame).2
        rw [mask_literal, mask_literal, if_pos hr, if_pos hs, List.append_cancel_right hrest]
      · exact absurd hsame (maskSpell_ne hl hr hs)
    · by_cases hs : Closes s
      · exact absurd hsame.symm (maskSpell_ne hl hs hr)
      · rw [maskSpell, maskSpell, if_neg hr, if_neg hs] at hsame
        have hrest := (List.cons.inj hsame).2
        rw [mask_literal, mask_literal, if_neg hr, if_neg hs, List.append_cancel_right hrest]
  · intro hsame
    have hliteral : maskLiteral r = maskLiteral s := by rw [maskLiteral, hsame, maskLiteral]
    have hcloses : Closes r ↔ Closes s := by rw [Closes, hsame, Closes]
    simp only [maskSpell, hliteral, hcloses]

/-! ## Records that differ in a stored string -/

/-- Spans with a place that are laid out have a layout gap behind it. -/
theorem laid_at (hl : Spans.Laid g (pre ++ (r, h) :: post)) :
    ∀ c ∈ h, isLayout c = true := by
  induction pre generalizing g with
  | nil =>
      cases hl with
      | literal _ _ tail => exact tail.gap
  | cons e rest ih =>
      cases hl with
      | literal _ _ tail => exact ih tail

/-- Two strings at a place of a value are told apart by the masked text of the value
exactly if they are by their own masked literals. -/
theorem mask_place_iff {f : Text → Json Text} (hf : Json.Place f) (r s : Text) :
    mask (f r).dumps = mask (f s).dumps ↔ mask (r ++ ['"']) = mask (s ++ ['"']) := by
  obtain ⟨g, pre, h, post, heq⟩ := hf.spans ([], [])
  have hlayout : ∀ t, (f t).layout = (g, pre ++ (t, h) :: post) := heq
  have hmask : ∀ t, mask (f t).dumps = maskSpell g (pre ++ (t, h) :: post) := by
    intro t
    have hlaid := (f t).laid_layout
    rw [← (f t).line_layout, Spans.line, mask_spell hlaid, hlayout]
  have hlaid := (f r).laid_layout
  rw [hlayout] at hlaid
  rw [hmask, hmask]
  exact maskSpell_literal_iff (laid_at hlaid)

/-- The key names under which a context may hold a secret. -/
def secretKeys : List Text :=
  ["api_key", "api-key", "secret", "password", "token", "authorization"].map String.toList

/-- A value with a place for a string under one of these keys, at any depth. -/
inductive SecretPlace : (Text → Json Text) → Prop
  | stored {key : Text} (hkey : key ∈ secretKeys) (before after : List (Text × Json Text)) :
      SecretPlace fun v => .obj (before ++ (key, .str v) :: after)
  | item {f : Text → Json Text} (before after : List (Json Text)) (inner : SecretPlace f) :
      SecretPlace fun v => .arr (before ++ f v :: after)
  | member {f : Text → Json Text} (before : List (Text × Json Text)) (key : Text)
      (after : List (Text × Json Text)) (inner : SecretPlace f) :
      SecretPlace fun v => .obj (before ++ (key, f v) :: after)

theorem SecretPlace.place {f : Text → Json Text} (hf : SecretPlace f) : Json.Place f := by
  induction hf with
  | stored _ before after => exact .member before _ after .here
  | item before after _ ih => exact .item before after ih
  | member before key after _ ih => exact .member before key after ih

/-- A context with a place for a secret, and the string by which its text depends on the
secret: the secret itself, or all that `str` shows of a dict that `json.dumps` refuses. -/
inductive SecretContext : (Text → LogContext) → (Text → Text) → Prop
  | entries {members : Text → List (Text × Json Text)}
      (place : SecretPlace fun v => .obj (members v)) :
      SecretContext (fun v => .entries (members v)) id
  | refused (shown : Text → Text) : SecretContext (fun v => .refused (shown v)) shown

def LogRecord.withContext (record : LogRecord) (context : LogContext) : LogRecord :=
  { record with context := some context }

/-- The text of the context is a value with a place for the literal of the secret. -/
theorem SecretContext.place {context : Text → LogContext} {shown : Text → Text}
    (h : SecretContext context shown) (record : LogRecord) :
    ∃ f, Json.Place f ∧
      ∀ v, contextValue (record.withContext (context v)) = f (escape (shown v)) := by
  cases h with
  | entries place =>
      obtain ⟨f, hf, heq⟩ := place.place.sortKeys.map escape
      exact ⟨f, hf, heq⟩
  | refused shown =>
      exact ⟨_, .member [] (escape "_unserializable".toList) [] .here, fun v => rfl⟩

theorem payload_place {f : Text → Json Text} (hf : Json.Place f) (now : UtcIso)
    (correlationId : Text) (record : LogRecord) :
    Json.Place fun t => payload now correlationId record (f t) :=
  hf.member [field "timestamp" now.stamp, field "level" record.levelname,
    field "correlation_id" correlationId, field "component" record.name,
    field "message" (mask record.message)] (escape "context".toList) _

/-- Two records that differ in one secret give the same line exactly if both contexts
have at most 4000 characters and masking makes the same of the two literals. -/
theorem format_secret_iff {context : Text → LogContext} {shown : Text → Text}
    (h : SecretContext context shown) (now : UtcIso) (correlationId : Text)
    (record : LogRecord) (v w : Text) :
    (∃ line, format now correlationId (record.withContext (context v)) = .ok line ∧
        format now correlationId (record.withContext (context w)) = .ok line) ↔
      ((contextText (record.withContext (context v))).length ≤ maxContextChars ∧
        (contextText (record.withContext (context w))).length ≤ maxContextChars) ∧
      mask (escape (shown v) ++ ['"']) = mask (escape (shown w) ++ ['"']) := by
  obtain ⟨f, hf, hvalue⟩ := h.place record
  have hlines := mask_place_iff (payload_place hf now correlationId record)
    (escape (shown v)) (escape (shown w))
  have hpayload : ∀ u, payload now correlationId (record.withContext (context u))
      (contextValue (record.withContext (context u))) =
        payload now correlationId record (f (escape (shown u))) := by
    intro u
    rw [hvalue]
    rfl
  rw [← hlines]
  constructor
  · rintro ⟨line, hv, hw⟩
    rw [format_eq] at hv hw
    split_ifs at hv with hfitsV
    split_ifs at hw with hfitsW
    rw [hpayload] at hv hw
    exact ⟨⟨hfitsV, hfitsW⟩, Except.ok.inj (hv.trans hw.symm)⟩
  · rintro ⟨⟨hfitsV, hfitsW⟩, hsame⟩
    refine ⟨_, by rw [format_eq, if_pos hfitsV], ?_⟩
    rw [format_eq, if_pos hfitsW, hpayload, hpayload, hsame]

/-- A context that is only a token. -/
def tokenContext (v : Text) : LogContext := .entries [("token".toList, .str v)]

/-- Two tokens that have a secret pattern of their own are masked alike. -/
theorem format_secret_iff_patterned :
    ∃ line,
      format sampleClock "-".toList
        (secretMessage.withContext (tokenContext "sk-0123456789abcdefghij".toList)) = .ok line ∧
      format sampleClock "-".toList
        (secretMessage.withContext (tokenContext "sk-jihgfedcba9876543210".toList)) = .ok line :=
  (@format_secret_iff tokenContext id (.entries (.stored (by decide) [] []))
    sampleClock "-".toList secretMessage _ _).mpr ⟨⟨by decide, by decide⟩, by decide⟩

/-- A plain token stands in the line as it is. -/
theorem format_shows_token :
    ¬ ∀ {context : Text → LogContext} {shown : Text → Text}, SecretContext context shown →
      ∀ (now : UtcIso) (correlationId : Text) (record : LogRecord) (v w : Text),
        ∃ line, format now correlationId (record.withContext (context v)) = .ok line ∧
          format now correlationId (record.withContext (context w)) = .ok line := by
  intro h
  have hplace : SecretContext tokenContext id := .entries (.stored (by decide) [] [])
  obtain ⟨line, hv, hw⟩ :=
    h hplace sampleClock "-".toList secretMessage "abc".toList "xyz".toList
  rw [format_eq, if_pos (by decide)] at hv hw
  have hsame := Except.ok.inj (hv.trans hw.symm)
  have hvalue : Json.Place fun t => .obj [(escape "token".toList, .str t)] :=
    .member [] (escape "token".toList) [] .here
  have hliteral := (mask_place_iff (payload_place hvalue sampleClock "-".toList secretMessage)
    (escape "abc".toList) (escape "xyz".toList)).mp hsame
  exact absurd hliteral (by decide)

end Logging
end System2
