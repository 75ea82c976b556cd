import System2.Common.MaskedText

/-!
# When a log line is JSON

A line that the formatter returns is the masked text of its payload. As long as every
literal keeps its closing quote, that is the text of the payload with masked literals.
The first literal that loses its quote leaves the string open, and everything behind it
is read with the roles of strings and gaps exchanged.
-/

namespace System2
open Foundation Foundation.JsonText Foundation.Substitution

namespace Logging

variable {c : Char} {g r s : Text} {rest : List (Text × Text)} {now : UtcIso}
  {correlationId : Text} {record : LogRecord}

/-! ## What the formatter returns -/

theorem written_contextValue (record : LogRecord) :
    ∀ r ∈ (contextValue record).strings, Written r := by
  have hescaped : ∀ d : Json Text, ∀ r ∈ (d.map escape).strings, Written r := by
    intro d r hr
    rw [Json.strings_map] at hr
    obtain ⟨s, _, rfl⟩ := List.mem_map.mp hr
    exact written_escape s
  rw [contextValue]
  split
  · exact hescaped _
  · exact hescaped _

/-- A text that was cut is not read back, wherever the cut fell. -/
theorem loads_truncated (text : Text) : loads (text ++ "...<truncated>".toList) = none := by
  cases hloads : loads (text ++ "...<truncated>".toList) with
  | none => rfl
  | some d =>
      have hout := foldlM_of_loads hloads
      rw [List.foldlM_append] at hout
      obtain ⟨q, _, hmark⟩ := Option.bind_eq_some_iff.mp hout
      have hnever : ∀ q : Mode,
          "...<truncated>".toList.foldlM Mode.step q ≠ some .out := by
        intro q
        cases q <;> decide
      exact absurd hmark (hnever q)

/-- The formatter returns a line exactly for a context of at most 4000 characters. -/
theorem format_eq (now : UtcIso) (correlationId : Text) (record : LogRecord) :
    format now correlationId record =
      if (contextText record).length ≤ maxContextChars then
        .ok (mask (payload now correlationId record (contextValue record)).dumps)
      else .error .valueError := by
  rw [format, keptContext]
  split_ifs with hcut hfits hfits
  · exact absurd hcut (Nat.not_lt.mpr hfits)
  · rw [loads_truncated]
  · have hread : loads (contextText record) = some (contextValue record) :=
      loads_dumps fun r hr => (written_contextValue record r hr).readable
    rw [hread]
  · exact absurd (Nat.not_lt.mp hcut) hfits

/-! ## The literals of a payload -/

/-- The literals of a line that come from the record: its fields, the strings and keys of
its context, and its exception. -/
def literals (correlationId : Text) (record : LogRecord) : List Text :=
  [record.levelname, correlationId, record.name, mask record.message].map escape ++
    (contextValue record).strings ++
      (record.exception.map fun text => escape (mask text)).toList

/-- `timestamp`, `level`, `correlation_id`, `component`, `message` and `context`. -/
def documentedKeys : List Text :=
  ["timestamp", "level", "correlation_id", "component", "message", "context"].map String.toList

def keyLiterals : List Text :=
  documentedKeys ++ ["exception".toList]

theorem escape_key : ∀ key ∈ keyLiterals, escape key = key := by decide

theorem closes_key : ∀ key ∈ keyLiterals, Closes key := by decide

/-- The timestamp is a literal of its own, and nothing in it is masked. -/
theorem stamp_spec (now : UtcIso) : escape now.stamp = now.stamp ∧ Closes now.stamp := by
  have hmark : ∀ c ∈ now.stamp, c ∈ "0123456789-:.T+Z".toList := by
    intro c hc
    obtain hc | ⟨s, n, rep, hm, hc⟩ := mem_sub hc
    · exact List.mem_append_left ['Z'] (List.contains_iff_mem.mp (now.marks c hc))
    · simp only [word] at hm
      split_ifs at hm
      obtain ⟨_, rfl⟩ := Prod.mk.inj (Option.some.inj hm)
      exact List.mem_append_right "0123456789-:.T+".toList hc
  have hplain : ∀ c ∈ "0123456789-:.T+Z".toList,
      isPrintable c = true ∧ c ≠ '"' ∧ c ≠ '\\' := each (by decide)
  have hquiet : ∀ c ∈ "0123456789-:.T+Z".toList, isQuiet c = true := each (by decide)
  exact ⟨escape_eq_self fun c hc => hplain c (hmark c hc),
    closes_of_quiet fun c hc => hquiet c (hmark c hc)⟩

theorem closes_field (key : String) (hkey : key.toList ∈ keyLiterals) :
    Closes (escape key.toList) := by
  rw [escape_key _ hkey]
  exact closes_key _ hkey

/-- The literals of a payload: a key before each string, and the context in their midst. -/
theorem strings_payload (context : Json Text) :
    (payload now correlationId record context).strings =
      [escape "timestamp".toList, escape now.stamp, escape "level".toList,
        escape record.levelname, escape "correlation_id".toList, escape correlationId,
        escape "component".toList, escape record.name, escape "message".toList,
        escape (mask record.message), escape "context".toList] ++ context.strings ++
      record.exception.toList.flatMap fun text =>
        [escape "exception".toList, escape (mask text)] := by
  simp only [payload, Json.strings, Json.memberStrings, field, List.cons_append,
    List.nil_append]
  cases record.exception <;> rfl

/-- The literals of a payload close if those of the record do. -/
theorem closes_payload (now : UtcIso) (correlationId : Text) (record : LogRecord) :
    (∀ r ∈ (payload now correlationId record (contextValue record)).strings, Closes r) ↔
      ∀ r ∈ literals correlationId record, Closes r := by
  have hkeys : ∀ key ∈ ["timestamp", "level", "correlation_id", "component", "message",
      "context", "exception"], Closes (escape key.toList) :=
    fun key hkey => closes_field key (List.mem_map_of_mem hkey)
  simp only [List.forall_mem_cons] at hkeys
  obtain ⟨htime, hlevel, hid, hcomponent, hmessage, hcontext, hexception, _⟩ := hkeys
  have hstamp : Closes (escape now.stamp) := by
    obtain ⟨hself, hcloses⟩ := stamp_spec now
    rwa [hself]
  have hnil : (∀ r ∈ ([] : List Text), Closes r) ↔ True :=
    iff_true_intro fun r hr => absurd hr List.not_mem_nil
  cases hexc : record.exception <;>
    simp only [strings_payload, literals, hexc, Option.map_none, Option.map_some, Option.toList,
      List.flatMap_nil, List.flatMap_cons, List.append_nil, List.map_cons, List.map_nil,
      List.forall_mem_append, List.forall_mem_cons, htime, hstamp, hlevel, hid, hcomponent,
      hmessage, hcontext, hexception, hnil, true_and, and_true]

theorem written_payload (now : UtcIso) (correlationId : Text) (record : LogRecord) :
    ∀ r ∈ (payload now correlationId record (contextValue record)).strings, Written r := by
  have hcontext := written_contextValue record
  intro r hr
  simp only [strings_payload, List.mem_append, List.mem_flatMap, List.mem_cons] at hr
  obtain (hr | hr) | ⟨text, _, hr⟩ := hr
  · obtain rfl | rfl | rfl | rfl | rfl | rfl | rfl | rfl | rfl | rfl | rfl | hr := hr
    all_goals first | exact written_escape _ | exact absurd hr List.not_mem_nil
  · exact hcontext r hr
  · obtain rfl | rfl | hr := hr
    all_goals first | exact written_escape _ | exact absurd hr List.not_mem_nil

/-! ## Lines whose literals all close -/

/-- Masked literals that keep their quotes stand between the same gaps. -/
theorem maskSpell_closed (hr : ∀ e ∈ rest, Closes e.1) :
    maskSpell g rest = Spans.spell g (rest.map fun e => (maskLiteral e.1, e.2)) := by
  induction rest generalizing g with
  | nil => rfl
  | cons e rest ih =>
      obtain ⟨he, hrest⟩ := List.forall_mem_cons.mp hr
      rw [maskSpell, if_pos he, ih hrest, List.map_cons, Spans.spell]

/-- The masked text of a value whose literals close is the text of the masked value. -/
theorem mask_dumps {d : Json Text} (hd : ∀ r ∈ d.strings, Closes r) :
    mask d.dumps = (d.map maskLiteral).dumps := by
  have hspans : ∀ e ∈ d.layout.2, Closes e.1 := fun e he =>
    hd e.1 (d.literals_layout ▸ List.mem_map_of_mem he)
  calc mask d.dumps
      = mask d.layout.line := by rw [d.line_layout]
    _ = maskSpell d.layout.1 d.layout.2 := mask_spell d.laid_layout
    _ = (d.layout.relabel maskLiteral).line := maskSpell_closed hspans
    _ = (d.map maskLiteral).dumps := by rw [← d.layout_map, Json.line_layout]

/-- A laid out text with written literals is printable. -/
theorem printable_spell (hl : Spans.Laid g rest) (hr : ∀ e ∈ rest, Written e.1) :
    ∀ c ∈ Spans.spell g rest, isPrintable c = true := by
  have hlayout : ∀ c, isLayout c = true → isPrintable c = true := fun c hc =>
    layout_cases (P := fun c => isPrintable c = true) (by decide) (by decide) hc
  induction hl with
  | last hg => exact fun c hc => hlayout c (hg c hc)
  | literal hg _ _ ih =>
      obtain ⟨hlit, hrest⟩ := List.forall_mem_cons.mp hr
      intro c hc
      simp only [Spans.spell, List.mem_append, List.mem_cons] at hc
      obtain hc | rfl | hc | rfl | hc := hc
      · exact hlayout c (hg c hc)
      · decide
      · exact printable_of_written hlit c hc
      · decide
      · exact ih hrest c hc

theorem printable_dumps {d : Json Text} (hd : ∀ r ∈ d.strings, Written r) :
    ∀ c ∈ d.dumps, isPrintable c = true := by
  rw [← d.line_layout]
  exact printable_spell d.laid_layout fun e he =>
    hd e.1 (d.literals_layout ▸ List.mem_map_of_mem he)

/-- A single line that `json.loads` reads as an object with the documented keys. -/
structure ValidLine (line : Text) : Prop where
  single : '\n' ∉ line
  object : ∃ members, loads line = some (.obj members) ∧
    ∀ key ∈ documentedKeys, key ∈ members.map Prod.fst

theorem keys_payload (context : Json Text) : ∃ members,
    (payload now correlationId record context).map maskLiteral = .obj members ∧
      ∀ key ∈ documentedKeys, key ∈ members.map Prod.fst := by
  refine ⟨_, rfl, fun key hkey => ?_⟩
  rw [Json.mapMembers_eq_map, List.map_map]
  have hkeys : [field "timestamp" now.stamp, field "level" record.levelname,
      field "correlation_id" correlationId, field "component" record.name,
      field "message" (mask record.message), (escape "context".toList, context)].map
        (Prod.fst ∘ fun e : Text × Json Text => (maskLiteral e.1, e.2.map maskLiteral)) =
      documentedKeys := by
    simp only [List.map_cons, List.map_nil, Function.comp, field]
    decide
  rw [List.map_append, hkeys]
  exact List.mem_append_left _ hkey

theorem validLine_of_closes (now : UtcIso)
    (hr : ∀ r ∈ literals correlationId record, Closes r) :
    ValidLine (mask (payload now correlationId record (contextValue record)).dumps) := by
  have hline := mask_dumps ((closes_payload now correlationId record).mpr hr)
  have hwritten : ∀ r ∈ ((payload now correlationId record (contextValue record)).map
      maskLiteral).strings, Written r := by
    rw [Json.strings_map]
    intro r hr
    obtain ⟨s, hs, rfl⟩ := List.mem_map.mp hr
    exact written_maskLiteral (written_payload now correlationId record s hs)
  rw [hline]
  constructor
  · intro hmem
    exact absurd (printable_dumps hwritten '\n' hmem) (by decide)
  · obtain ⟨members, hmembers, hkeys⟩ := keys_payload (contextValue record)
    refine ⟨members, ?_, hkeys⟩
    rw [loads_dumps fun r hr => (hwritten r hr).readable, hmembers]

/-! ## A literal that does not close -/

/-- A gap that is read as part of a string leaves it open. -/
theorem foldlM_lit_gap (hg : ∀ c ∈ g, isLayout c = true) :
    g.foldlM Mode.step .lit = some .lit := by
  induction g with
  | nil => rfl
  | cons c rest ih =>
      obtain ⟨hc, hrest⟩ := List.forall_mem_cons.mp hg
      obtain ⟨hquote, hslash⟩ : c ≠ '"' ∧ c ≠ '\\' :=
        layout_cases (P := fun c => c ≠ '"' ∧ c ≠ '\\') (by decide) (by decide) hc
      have hstep : Mode.step .lit c = some .lit := by
        rw [Mode.step, if_neg hslash, if_neg hquote]
      rw [List.foldlM_cons, hstep]
      exact ih hrest

theorem foldlM_out_gap (hg : ∀ c ∈ g, isLayout c = true) :
    g.foldlM Mode.step .out = some .out := by
  apply foldlM_outside
  intro c hc
  rw [isOutside, hg c hc, Bool.or_true]

/-- A literal that is read outside strings is refused or passed: its quotes all stand
behind backslashes. -/
theorem foldlM_out_literal {q : Spot} (hr : r.foldlM Spot.written .plain = some q) :
    r.foldlM Mode.step .out = none ∨ r.foldlM Mode.step .out = some .out := by
  induction r with
  | nil => exact .inr rfl
  | cons c rest ih =>
      rw [List.foldlM_cons] at hr ⊢
      obtain ⟨q₁, hq₁, hrest⟩ := Option.bind_eq_some_iff.mp hr
      by_cases hslash : c = '\\'
      · subst hslash
        exact .inl rfl
      · simp only [Spot.written, Spot.step, if_neg hslash] at hq₁
        split_ifs at hq₁ with hself
        obtain rfl := Option.some.inj hq₁
        rw [Mode.step, if_neg hself.1]
        split_ifs with hout
        · exact ih hrest
        · exact .inl rfl

/-- Once a string was left open, the text does not end outside strings. -/
theorem maskSpell_shifted (hl : Spans.Laid g rest) (hr : ∀ e ∈ rest, Written e.1) :
    (maskSpell g rest).foldlM Mode.step .lit ≠ some .out := by
  induction rest generalizing g with
  | nil =>
      rw [maskSpell, foldlM_lit_gap hl.gap]
      decide
  | cons e rest ih =>
      obtain ⟨r, h⟩ := e
      obtain ⟨hlit, hrest⟩ := List.forall_mem_cons.mp hr
      have hmasked := foldlM_out_literal (written_maskLiteral hlit)
      have hopen : ∀ t : Text, (g ++ '"' :: t).foldlM Mode.step .lit =
          t.foldlM Mode.step .out := by
        intro t
        rw [List.foldlM_append, foldlM_lit_gap hl.gap]
        rfl
      cases hl with
      | literal hg _ tail =>
          rw [maskSpell]
          split_ifs with hcloses
          · rw [hopen, List.foldlM_append]
            obtain hnone | hout := hmasked
            · rw [hnone]
              exact (Option.some_ne_none _).symm
            · rw [hout]
              exact ih tail hrest
          · rw [hopen, List.foldlM_append]
            obtain hnone | hout := hmasked
            · rw [hnone]
              exact (Option.some_ne_none _).symm
            · rw [hout]
              exact (Option.some_ne_none _).symm

/-- A text with a literal that does not close does not end outside strings. -/
theorem maskSpell_opened (hl : Spans.Laid g rest) (hr : ∀ e ∈ rest, Written e.1)
    (hopened : ∃ e ∈ rest, ¬ Closes e.1) :
    (maskSpell g rest).foldlM Mode.step .out ≠ some .out := by
  induction rest generalizing g with
  | nil =>
      obtain ⟨e, he, _⟩ := hopened
      exact absurd he List.not_mem_nil
  | cons e rest ih =>
      obtain ⟨r, h⟩ := e
      obtain ⟨hlit, hrest⟩ := List.forall_mem_cons.mp hr
      have hmasked : (maskLiteral r).foldlM Mode.step .lit = some .lit :=
        foldlM_mode_of_read (written_maskLiteral hlit).readable
      have hopen : ∀ t : Text, (g ++ '"' :: (maskLiteral r ++ t)).foldlM Mode.step .out =
          t.foldlM Mode.step .lit := by
        intro t
        have hquote : Mode.step .out '"' = some .lit := rfl
        rw [List.foldlM_append, foldlM_out_gap hl.gap, Option.bind_eq_bind, Option.bind_some,
          List.foldlM_cons, hquote, Option.bind_eq_bind, Option.bind_some, List.foldlM_append,
          hmasked]
        rfl
      cases hl with
      | literal hg _ tail =>
          rw [maskSpell]
          split_ifs with hcloses
          · rw [hopen]
            obtain ⟨e, he, hopened⟩ := hopened
            obtain rfl | he := List.mem_cons.mp he
            · exact absurd hcloses hopened
            · exact ih tail hrest ⟨e, he, hopened⟩
          · rw [hopen]
            exact maskSpell_shifted
              (tail.regap fun c hc => tail.gap c ((List.dropWhile_sublist _).subset hc)) hrest

/-- The masked text of a value with a literal that does not close is not read. -/
theorem loads_mask_opened {d : Json Text} (hd : ∀ r ∈ d.strings, Written r)
    (hopened : ¬ ∀ r ∈ d.strings, Closes r) : loads (mask d.dumps) = none := by
  cases hloads : loads (mask d.dumps) with
  | none => rfl
  | some read =>
      have hout := foldlM_of_loads hloads
      rw [← d.line_layout, Spans.line, mask_spell d.laid_layout] at hout
      have hwritten : ∀ e ∈ d.layout.2, Written e.1 := fun e he =>
        hd e.1 (d.literals_layout ▸ List.mem_map_of_mem he)
      refine absurd hout (maskSpell_opened d.laid_layout hwritten ?_)
      push Not at hopened
      obtain ⟨r, hr, hnot⟩ := hopened
      rw [← d.literals_layout] at hr
      obtain ⟨e, he, rfl⟩ := List.mem_map.mp hr
      exact ⟨e, he, hnot⟩

/-- The formatter returns a valid line exactly when the text of the context has at most
4000 characters and masking leaves every literal of the record its closing quote. -/
theorem format_validLine_iff (now : UtcIso) (correlationId : Text) (record : LogRecord) :
    (∃ line, format now correlationId record = .ok line ∧ ValidLine line) ↔
      (contextText record).length ≤ maxContextChars ∧
        ∀ r ∈ literals correlationId record, Closes r := by
  constructor
  · rintro ⟨line, hformat, hvalid⟩
    rw [format_eq] at hformat
    split_ifs at hformat with hfits
    obtain rfl := Except.ok.inj hformat
    refine ⟨hfits, ?_⟩
    by_contra hopened
    obtain ⟨members, hmembers, _⟩ := hvalid.object
    have hnone := loads_mask_opened (written_payload now correlationId record) fun hcloses =>
      hopened ((closes_payload now correlationId record).mp hcloses)
    rw [hnone] at hmembers
    cases hmembers
  · rintro ⟨hfits, hcloses⟩
    refine ⟨_, ?_, validLine_of_closes now hcloses⟩
    rw [format_eq, if_pos hfits]

/-- A clock, and a record of one message with a secret at its end. -/
def sampleClock : UtcIso := ⟨"2026-07-01T00:00:00+00:00".toList, each (by decide)⟩

def secretMessage : LogRecord where
  levelname := "INFO".toList
  name := "system2.broker".toList
  message := "login with token: abc".toList
  context := none
  exception := none

/-- The value of the secret is masked together with the quote that closes the message. -/
theorem format_secretMessage_invalid :
    ¬ ∀ (now : UtcIso) (correlationId : Text) (record : LogRecord),
      ∃ line, format now correlationId record = .ok line ∧ ValidLine line := by
  intro h
  obtain ⟨line, hformat, hvalid⟩ := h sampleClock "-".toList secretMessage
  obtain ⟨members, hmembers, _⟩ := hvalid.object
  have hnone := loads_mask_opened (written_payload sampleClock "-".toList secretMessage)
    fun hcloses => by
      have hmessage := (closes_payload _ _ _).mp hcloses (escape (mask secretMessage.message))
        (by decide)
      exact absurd hmessage (by decide)
  rw [format_eq, if_pos (by decide)] at hformat
  obtain rfl := Except.ok.inj hformat
  rw [hnone] at hmembers
  cases hmembers

end Logging
end System2
