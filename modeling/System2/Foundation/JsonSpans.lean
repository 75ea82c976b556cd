import System2.Foundation.JsonTree

/-!
# A JSON text as gaps and literals

The text of a value is a first gap and then literals, each with the gap behind it. A gap
is made of the marks that stand outside strings.
-/

namespace Foundation
namespace JsonText

/-- White space between the tokens of JSON text. -/
def isBlank (c : Char) : Bool := " \t\n\r".toList.contains c

/-- The characters that `json.dumps` writes outside strings. -/
def isLayout (c : Char) : Bool := "\x7b\x7d[]:, ".toList.contains c || isScalarMark c

/-- The characters that may stand outside strings. -/
def isOutside (c : Char) : Bool := isBlank c || isLayout c

/-- What holds of each layout character. -/
theorem layout_cases {P : Char → Prop} [DecidablePred P]
    (hmark : "\x7b\x7d[]:, ".toList.all (fun d => decide (P d)) = true)
    (hscalar : "+-.0123456789eEnultrefasNIiy".toList.all (fun d => decide (P d)) = true)
    {c : Char} (hc : isLayout c = true) : P c := by
  simp only [isLayout, isScalarMark, Bool.or_eq_true, List.contains_iff_mem] at hc
  exact hc.elim (each hmark c) (each hscalar c)

/-- A first gap, and literals with the gaps behind them. -/
abbrev Spans := Text × List (Text × Text)

namespace Spans

/-- The text of some spans. -/
def spell (g : Text) : List (Text × Text) → Text
  | [] => g
  | (r, h) :: rest => g ++ '"' :: (r ++ '"' :: spell h rest)

def line (s : Spans) : Text := spell s.1 s.2

/-- More text in front of the first gap. -/
def front (xs : Text) (s : Spans) : Spans := (xs ++ s.1, s.2)

/-- Other literals between the same gaps. -/
def relabel (f : Text → Text) (s : Spans) : Spans := (s.1, s.2.map fun e => (f e.1, e.2))

/-- Gaps are made of layout characters, and a space stands between two literals. -/
inductive Laid : Text → List (Text × Text) → Prop
  | last {g : Text} (hg : ∀ c ∈ g, isLayout c = true) : Laid g []
  | literal {g r h : Text} {rest : List (Text × Text)} (hg : ∀ c ∈ g, isLayout c = true)
      (hspace : rest = [] ∨ ' ' ∈ h) (tail : Laid h rest) : Laid g ((r, h) :: rest)

variable {g h r : Text} {rest : List (Text × Text)} {s : Spans}

theorem spell_append (g h : Text) (rest : List (Text × Text)) :
    spell (g ++ h) rest = g ++ spell h rest := by
  cases rest with
  | nil => rfl
  | cons e rest => simp only [spell, List.append_assoc]

theorem line_front (xs : Text) (s : Spans) : (s.front xs).line = xs ++ s.line :=
  spell_append xs s.1 s.2

theorem line_literal (g r : Text) (s : Spans) :
    line (g, (r, s.1) :: s.2) = g ++ '"' :: (r ++ '"' :: s.line) := rfl

theorem Laid.gap (hl : Laid g rest) : ∀ c ∈ g, isLayout c = true := by
  cases hl with
  | last hg => exact hg
  | literal hg _ _ => exact hg

/-- The first gap may be any other gap. -/
theorem Laid.regap (hl : Laid g rest) (hh : ∀ c ∈ h, isLayout c = true) : Laid h rest := by
  cases hl with
  | last _ => exact .last hh
  | literal _ hspace tail => exact .literal hh hspace tail

theorem Laid.front (hl : Laid g rest) (hh : ∀ c ∈ h, isLayout c = true) : Laid (h ++ g) rest :=
  hl.regap fun c hc => (List.mem_append.mp hc).elim (hh c) (hl.gap c)

end Spans

open Spans

namespace Json

mutual
/-- The spans of a value in front of those of what follows it. -/
def spans : Json Text → Spans → Spans
  | .scalar value, s => s.front value.token
  | .str r, s => ([], (r, s.1) :: s.2)
  | .arr [], s => s.front ['[', ']']
  | .arr (d :: items), s => (d.spans (itemSpans items s)).front ['[']
  | .obj [], s => s.front ['{', '}']
  | .obj ((key, d) :: members), s =>
      let inner := (d.spans (memberSpans members s)).front [':', ' ']
      (['{'], (key, inner.1) :: inner.2)

def itemSpans : List (Json Text) → Spans → Spans
  | [], s => s.front [']']
  | d :: items, s => (d.spans (itemSpans items s)).front [',', ' ']

def memberSpans : List (Text × Json Text) → Spans → Spans
  | [], s => s.front ['}']
  | (key, d) :: members, s =>
      let inner := (d.spans (memberSpans members s)).front [':', ' ']
      ([',', ' '], (key, inner.1) :: inner.2)
end

mutual
/-- The spans of a value spell its text. -/
theorem line_spans : ∀ (d : Json Text) (s : Spans), (d.spans s).line = d.write s.line
  | .scalar value, s => by rw [spans, write, line_front]
  | .str r, s => line_literal [] r s
  | .arr [], s => by rw [spans, write, line_front]; rfl
  | .arr (d :: items), s => by
      rw [spans, write, line_front, line_spans d, line_itemSpans items s]; rfl
  | .obj [], s => by rw [spans, write, line_front]; rfl
  | .obj ((key, d) :: members), s => by
      rw [spans, write, line_literal, line_front, line_spans d, line_memberSpans members s]
      rfl

theorem line_itemSpans : ∀ (items : List (Json Text)) (s : Spans),
    (itemSpans items s).line = writeItems items s.line
  | [], s => by rw [itemSpans, writeItems, line_front]; rfl
  | d :: items, s => by
      rw [itemSpans, writeItems, line_front, line_spans d, line_itemSpans items s]; rfl

theorem line_memberSpans : ∀ (members : List (Text × Json Text)) (s : Spans),
    (memberSpans members s).line = writeMembers members s.line
  | [], s => by rw [memberSpans, writeMembers, line_front]; rfl
  | (key, d) :: members, s => by
      rw [memberSpans, writeMembers, line_literal, line_front, line_spans d,
        line_memberSpans members s]
      rfl
end

mutual
/-- The literals of the spans are the strings of the value. -/
theorem literals_spans : ∀ (d : Json Text) (s : Spans),
    (d.spans s).2.map Prod.fst = d.strings ++ s.2.map Prod.fst
  | .scalar _, s => rfl
  | .str _, s => rfl
  | .arr [], s => rfl
  | .arr (d :: items), s => by
      simp only [spans, Spans.front, strings, itemStrings, List.append_assoc,
        literals_spans d, literals_itemSpans items s]
  | .obj [], s => rfl
  | .obj ((key, d) :: members), s => by
      simp only [spans, Spans.front, strings, memberStrings, List.map_cons, List.cons_append,
        List.append_assoc, literals_spans d, literals_memberSpans members s]

theorem literals_itemSpans : ∀ (items : List (Json Text)) (s : Spans),
    (itemSpans items s).2.map Prod.fst = itemStrings items ++ s.2.map Prod.fst
  | [], s => rfl
  | d :: items, s => by
      simp only [itemSpans, Spans.front, itemStrings, List.append_assoc,
        literals_spans d, literals_itemSpans items s]

theorem literals_memberSpans : ∀ (members : List (Text × Json Text)) (s : Spans),
    (memberSpans members s).2.map Prod.fst = memberStrings members ++ s.2.map Prod.fst
  | [], s => rfl
  | (key, d) :: members, s => by
      simp only [memberSpans, Spans.front, memberStrings, List.map_cons, List.cons_append,
        List.append_assoc, literals_spans d, literals_memberSpans members s]
end

mutual
/-- Other strings in a value are other literals between the same gaps. -/
theorem spans_map (f : Text → Text) : ∀ (d : Json Text) (s : Spans),
    (d.map f).spans (s.relabel f) = (d.spans s).relabel f
  | .scalar _, s => rfl
  | .str _, s => rfl
  | .arr [], s => rfl
  | .arr (d :: items), s => by
      simp only [map, mapItems, spans, itemSpans_map f items s, spans_map f d]; rfl
  | .obj [], s => rfl
  | .obj ((key, d) :: members), s => by
      simp only [map, mapMembers, spans, memberSpans_map f members s, spans_map f d]; rfl

theorem itemSpans_map (f : Text → Text) : ∀ (items : List (Json Text)) (s : Spans),
    itemSpans (mapItems f items) (s.relabel f) = (itemSpans items s).relabel f
  | [], s => rfl
  | d :: items, s => by
      simp only [mapItems, itemSpans, itemSpans_map f items s, spans_map f d]; rfl

theorem memberSpans_map (f : Text → Text) : ∀ (members : List (Text × Json Text)) (s : Spans),
    memberSpans (mapMembers f members) (s.relabel f) = (memberSpans members s).relabel f
  | [], s => rfl
  | (key, d) :: members, s => by
      simp only [mapMembers, memberSpans, memberSpans_map f members s, spans_map f d]; rfl
end

/-- A space stands in the first gap unless no literal follows. -/
def Parted (s : Spans) : Prop := s.2 = [] ∨ ' ' ∈ s.1

theorem Parted.front {s : Spans} (hs : Parted s) (xs : Text) : Parted (s.front xs) :=
  hs.imp_right (List.mem_append_right xs)

theorem parted_itemSpans (items : List (Json Text)) {s : Spans} (hs : Parted s) :
    Parted (itemSpans items s) := by
  cases items with
  | nil => exact hs.front [']']
  | cons d items => exact .inr (by simp [itemSpans, Spans.front])

theorem parted_memberSpans (members : List (Text × Json Text)) {s : Spans} (hs : Parted s) :
    Parted (memberSpans members s) := by
  cases members with
  | nil => exact hs.front ['}']
  | cons e members => exact .inr (by simp [memberSpans])

theorem isLayout_token (value : Scalar) : ∀ c ∈ value.token, isLayout c = true := by
  intro c hc
  have hmarks := value.isToken
  simp only [isScalarToken, Bool.and_eq_true, List.all_eq_true] at hmarks
  rw [isLayout, hmarks.1 c hc, Bool.or_true]

mutual
/-- The text of a value is laid out. -/
theorem laid_spans : ∀ (d : Json Text) {s : Spans}, Laid s.1 s.2 → Parted s →
    Laid (d.spans s).1 (d.spans s).2
  | .scalar value, s, hs, _ => hs.front (isLayout_token value)
  | .str r, s, hs, hp => .literal (fun c hc => absurd hc List.not_mem_nil) hp hs
  | .arr [], s, hs, _ => hs.front (each (by decide))
  | .arr (d :: items), s, hs, hp =>
      (laid_spans d (laid_itemSpans items hs hp) (parted_itemSpans items hp)).front (each (by decide))
  | .obj [], s, hs, _ => hs.front (each (by decide))
  | .obj ((key, d) :: members), s, hs, hp =>
      .literal (show ∀ c ∈ ['{'], isLayout c = true from each (by decide)) (.inr (by simp [Spans.front]))
        ((laid_spans d (laid_memberSpans members hs hp)
          (parted_memberSpans members hp)).front (each (by decide)))

theorem laid_itemSpans : ∀ (items : List (Json Text)) {s : Spans}, Laid s.1 s.2 → Parted s →
    Laid (itemSpans items s).1 (itemSpans items s).2
  | [], s, hs, _ => hs.front (each (by decide))
  | d :: items, s, hs, hp =>
      (laid_spans d (laid_itemSpans items hs hp) (parted_itemSpans items hp)).front (each (by decide))

theorem laid_memberSpans : ∀ (members : List (Text × Json Text)) {s : Spans}, Laid s.1 s.2 →
    Parted s → Laid (memberSpans members s).1 (memberSpans members s).2
  | [], s, hs, _ => hs.front (each (by decide))
  | (key, d) :: members, s, hs, hp =>
      .literal (show ∀ c ∈ [',', ' '], isLayout c = true from each (by decide))
        (.inr (by simp [Spans.front]))
        ((laid_spans d (laid_memberSpans members hs hp)
          (parted_memberSpans members hp)).front (each (by decide)))
end

/-- The spans of a whole text. -/
def layout (d : Json Text) : Spans := d.spans ([], [])

theorem laid_layout (d : Json Text) : Laid d.layout.1 d.layout.2 :=
  laid_spans d (.last (each (by decide))) (.inl rfl)

theorem line_layout (d : Json Text) : d.layout.line = d.dumps := line_spans d ([], [])

theorem literals_layout (d : Json Text) : d.layout.2.map Prod.fst = d.strings := by
  rw [layout, literals_spans, List.map_nil, List.append_nil]

theorem layout_map (f : Text → Text) (d : Json Text) :
    (d.map f).layout = d.layout.relabel f := spans_map f d ([], [])

/-! ## The literal at a place -/

/-- Spans with a place for a literal. -/
def Spans.HasPlace (s : Text → Spans) : Prop :=
  ∃ g pre h post, ∀ t, s t = (g, pre ++ (t, h) :: post)

theorem Spans.HasPlace.front {s : Text → Spans} (hs : Spans.HasPlace s) (xs : Text) :
    Spans.HasPlace fun t => (s t).front xs := by
  obtain ⟨g, pre, h, post, heq⟩ := hs
  exact ⟨xs ++ g, pre, h, post, fun t => by simp only [heq, Spans.front]⟩

theorem Spans.HasPlace.literal {s : Text → Spans} (hs : Spans.HasPlace s) (g r : Text) :
    Spans.HasPlace fun t => (g, (r, (s t).1) :: (s t).2) := by
  obtain ⟨h, pre, k, post, heq⟩ := hs
  exact ⟨g, (r, h) :: pre, k, post, fun t => by simp only [heq, List.cons_append]⟩

mutual
/-- A place in what follows a value is a place behind its spans. -/
theorem hasPlace_spans : ∀ (d : Json Text) {s : Text → Spans}, Spans.HasPlace s →
    Spans.HasPlace fun t => d.spans (s t)
  | .scalar value, _, hs => hs.front value.token
  | .str r, _, hs => hs.literal [] r
  | .arr [], _, hs => hs.front ['[', ']']
  | .arr (d :: items), _, hs => (hasPlace_spans d (hasPlace_itemSpans items hs)).front ['[']
  | .obj [], _, hs => hs.front ['{', '}']
  | .obj ((key, d) :: members), _, hs =>
      ((hasPlace_spans d (hasPlace_memberSpans members hs)).front [':', ' ']).literal ['{'] key

theorem hasPlace_itemSpans : ∀ (items : List (Json Text)) {s : Text → Spans},
    Spans.HasPlace s → Spans.HasPlace fun t => itemSpans items (s t)
  | [], _, hs => hs.front [']']
  | d :: items, _, hs => (hasPlace_spans d (hasPlace_itemSpans items hs)).front [',', ' ']

theorem hasPlace_memberSpans : ∀ (members : List (Text × Json Text)) {s : Text → Spans},
    Spans.HasPlace s → Spans.HasPlace fun t => memberSpans members (s t)
  | [], _, hs => hs.front ['}']
  | (key, d) :: members, _, hs =>
      ((hasPlace_spans d (hasPlace_memberSpans members hs)).front [':', ' ']).literal [',', ' '] key
end

theorem hasPlace_items {f : Text → Json Text} {s : Spans} (after : List (Json Text))
    (hf : ∀ s, Spans.HasPlace fun t => (f t).spans s) (before : List (Json Text)) :
    Spans.HasPlace fun t => itemSpans (before ++ f t :: after) s := by
  induction before with
  | nil => exact (hf (itemSpans after s)).front [',', ' ']
  | cons d rest ih => exact (hasPlace_spans d ih).front [',', ' ']

theorem hasPlace_members {f : Text → Json Text} {s : Spans} (key : Text)
    (after : List (Text × Json Text)) (hf : ∀ s, Spans.HasPlace fun t => (f t).spans s)
    (before : List (Text × Json Text)) :
    Spans.HasPlace fun t => memberSpans (before ++ (key, f t) :: after) s := by
  induction before with
  | nil => exact ((hf (memberSpans after s)).front [':', ' ']).literal [',', ' '] key
  | cons e rest ih => exact ((hasPlace_spans e.2 ih).front [':', ' ']).literal [',', ' '] e.1

/-- The literal at the place of a value is one of its spans, and the others do not depend
on it. -/
theorem Place.spans {f : Text → Json Text} (hf : Place f) (s : Spans) :
    Spans.HasPlace fun t => (f t).spans s := by
  induction hf generalizing s with
  | here => exact ⟨[], [], s.1, s.2, fun t => rfl⟩
  | item before after _ ih =>
      cases before with
      | nil => exact (ih (itemSpans after s)).front ['[']
      | cons d rest => exact (hasPlace_spans d (hasPlace_items after ih rest)).front ['[']
  | member before key after _ ih =>
      cases before with
      | nil => exact ((ih (memberSpans after s)).front [':', ' ']).literal ['{'] key
      | cons e rest =>
          exact ((hasPlace_spans e.2 (hasPlace_members key after ih rest)).front
            [':', ' ']).literal ['{'] e.1

end Json
end JsonText
end Foundation
