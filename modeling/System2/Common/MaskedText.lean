import Mathlib.Data.List.Find
import System2.Common.Logging

/-!
# What masking does to JSON text

A secret begins inside a literal: no key name stands outside strings, and none holds a
quote. Its value runs to the next space, so it either ends inside the literal or takes
the closing quote with it.

## Implementation notes

A literal is looked at with its closing quote and anything behind that. Each part of the
pattern up to the value stops before the quote.
-/

namespace System2
open Foundation Foundation.JsonText Foundation.Substitution

namespace Logging

variable {c d : Char} {g h k r s xs ys : Text} {p : Char → Bool}

/-! ## Text up to a quote -/

/-- A run of one class ends at the latest at a character outside it. -/
theorem runs_append_cons (hc : p c = false) (xs ys : Text) :
    (xs ++ c :: ys).takeWhile p = xs.takeWhile p ∧
      (xs ++ c :: ys).dropWhile p = xs.dropWhile p ++ c :: ys := by
  induction xs with
  | nil =>
      have hneg : ¬ p c = true := Bool.eq_false_iff.mp hc
      exact ⟨List.takeWhile_cons_of_neg hneg, List.dropWhile_cons_of_neg hneg⟩
  | cons x rest ih =>
      cases hx : p x with
      | true =>
          simp only [List.cons_append, List.takeWhile_cons_of_pos hx,
            List.dropWhile_cons_of_pos hx, ih, and_self]
      | false =>
          have hneg : ¬ p x = true := Bool.eq_false_iff.mp hx
          simp only [List.cons_append, List.takeWhile_cons_of_neg hneg,
            List.dropWhile_cons_of_neg hneg, and_self]

/-- A word without some character does not reach over it. -/
theorem prefix_append_cons (hk : c ∉ k) : k <+: xs ++ c :: ys ↔ k <+: xs := by
  constructor
  · intro h
    obtain hshort | ⟨t, rfl⟩ := List.prefix_or_prefix_of_prefix h (List.prefix_append xs _)
    · exact hshort
    · cases t with
      | nil => rw [List.append_nil]
      | cons d rest =>
          have hd := (List.prefix_append_right_inj xs).mp h
          obtain ⟨rfl, _⟩ := List.cons_prefix_cons.mp hd
          exact absurd (List.mem_append_right xs List.mem_cons_self) hk
  · exact fun h => h.trans (List.prefix_append xs _)

/-- A run that ends inside the first part does not see what follows. -/
theorem runs_append_of_stop (hs : ∃ c ∈ xs, p c = false) (ys : Text) :
    (xs ++ ys).takeWhile p = xs.takeWhile p ∧ (xs ++ ys).dropWhile p = xs.dropWhile p ++ ys := by
  obtain ⟨c, hc, hstop⟩ := hs
  obtain ⟨u, v, rfl⟩ := List.append_of_mem hc
  simp only [List.append_assoc, List.cons_append, runs_append_cons hstop, and_self]

/-! ## A key name and its separator -/

theorem quote_notMem_keyword : ∀ k ∈ keywords, '"' ∉ k := by decide

theorem isSpace_quote : isSpace '"' = false := by decide

def isSeparator (c : Char) : Prop := c = ':' ∨ c = '='

/-- The same key name is found whatever stands behind the quote. -/
theorem dropKeyword_quote (r : Text) : (∀ ys, dropKeyword (r ++ '"' :: ys) = none) ∨
    ∃ w t, r = w ++ t ∧ ∀ ys, dropKeyword (r ++ '"' :: ys) = some (t ++ '"' :: ys) := by
  have hsame : ∀ ys, (keywords.find? fun k => k.isPrefixOf ((r ++ '"' :: ys).map foldCase)) =
      keywords.find? fun k => k.isPrefixOf (r.map foldCase) := by
    intro ys
    apply List.find?_congr
    intro k hk
    have hstart : k <+: r.map foldCase ++ '"' :: ys.map foldCase ↔ k <+: r.map foldCase :=
      prefix_append_cons (quote_notMem_keyword k hk)
    rw [List.map_append, Bool.eq_iff_iff, List.isPrefixOf_iff_prefix,
      List.isPrefixOf_iff_prefix]
    exact hstart
  cases hfind : keywords.find? fun k => k.isPrefixOf (r.map foldCase) with
  | none =>
      refine .inl fun ys => ?_
      rw [dropKeyword, hsame, hfind, Option.map_none]
  | some k =>
      have hfound : k.isPrefixOf (r.map foldCase) = true :=
        List.find?_some (p := fun k : Text => k.isPrefixOf (r.map foldCase)) hfind
      have hstart := List.isPrefixOf_iff_prefix.mp hfound
      have hlen : k.length ≤ r.length := by
        simpa only [List.length_map] using hstart.length_le
      refine .inr ⟨r.take k.length, r.drop k.length, (List.take_append_drop _ r).symm, ?_⟩
      intro ys
      rw [dropKeyword, hsame, hfind, Option.map_some, List.drop_append_of_le_length hlen]

/-- The same separator is found whatever stands behind the quote. -/
theorem dropSeparator_quote (r : Text) : (∀ ys, dropSeparator (r ++ '"' :: ys) = none) ∨
    ∃ w c t, r = w ++ c :: t ∧ isSeparator c ∧
      ∀ ys, dropSeparator (r ++ '"' :: ys) = some (t ++ '"' :: ys) := by
  have hdrop := fun ys => (runs_append_cons isSpace_quote r ys).2
  cases hr : r.dropWhile isSpace with
  | nil =>
      refine .inl fun ys => ?_
      rw [dropSeparator, hdrop, hr]
      rfl
  | cons c t =>
      by_cases hc : c = ':' ∨ c = '='
      · refine .inr ⟨r.takeWhile isSpace, c, t, ?_, hc, fun ys => ?_⟩
        · rw [← hr, List.takeWhile_append_dropWhile]
        · rw [dropSeparator, hdrop, hr]
          exact if_pos hc
      · refine .inl fun ys => ?_
        rw [dropSeparator, hdrop, hr]
        exact if_neg hc

theorem keyedHead_quote (r : Text) :
    (∀ ys, (dropKeyword (r ++ '"' :: ys)).bind dropSeparator = none) ∨
      ∃ w c t, r = w ++ c :: t ∧ isSeparator c ∧
        ∀ ys, (dropKeyword (r ++ '"' :: ys)).bind dropSeparator = some (t ++ '"' :: ys) := by
  obtain hnone | ⟨v, t, rfl, hkey⟩ := dropKeyword_quote r
  · exact .inl fun ys => by rw [hnone, Option.bind_none]
  · obtain hnone | ⟨w, c, u, rfl, hc, hsep⟩ := dropSeparator_quote t
    · exact .inl fun ys => by rw [hkey, Option.bind_some, hnone]
    · refine .inr ⟨v ++ w, c, u, (List.append_assoc v w _).symm, hc, fun ys => ?_⟩
      rw [hkey, Option.bind_some, hsep]

/-! ## The masked match -/

theorem takeWhile_ne_append (hc : c ∉ xs) (ys : Text) :
    (xs ++ c :: ys).takeWhile (· ≠ c) = xs := by
  have hpos : ∀ x ∈ xs, (decide (x ≠ c)) = true := fun x hx =>
    decide_eq_true fun hxc => hc (hxc ▸ hx)
  rw [List.takeWhile_append_of_pos hpos, List.takeWhile_cons_of_neg (by simp), List.append_nil]

/-- A masked match keeps everything up to a separator. What follows the match adds
nothing unless it brings the first `=`. -/
theorem maskKeyed_spec (hsep : ∃ c ∈ xs, isSeparator c) :
    ∃ u c v, xs = u ++ c :: v ∧ isSeparator c ∧
      ∀ ys, '=' ∉ ys → maskKeyed (xs ++ ys) = u ++ c :: masked := by
  by_cases heq : '=' ∈ xs
  · obtain ⟨u, v, rfl, hu⟩ := List.eq_append_cons_of_mem heq
    refine ⟨u, '=', v, rfl, .inr rfl, fun ys _ => ?_⟩
    have hmem : '=' ∈ u ++ '=' :: v ++ ys := List.mem_append_left ys heq
    simp only [maskKeyed, if_pos hmem]
    rw [List.append_assoc, List.cons_append, takeWhile_ne_append hu]
  · have hcolon : ':' ∈ xs := by
      obtain ⟨c, hc, rfl | rfl⟩ := hsep
      · exact hc
      · exact absurd hc heq
    obtain ⟨u, v, rfl, hu⟩ := List.eq_append_cons_of_mem hcolon
    refine ⟨u, ':', v, rfl, .inl rfl, fun ys hys => ?_⟩
    have hmem : '=' ∉ u ++ ':' :: v ++ ys := fun h => (List.mem_append.mp h).elim heq hys
    simp only [maskKeyed, if_neg hmem]
    rw [List.append_assoc, List.cons_append, takeWhile_ne_append hu]

/-- What the keyed pattern finds at a place in a literal. -/
inductive KeyedAt (r : Text) : Prop
  | nothing (found : ∀ ys, matchKeyed (r ++ '"' :: ys) = none)
  /-- The value ends before a space of the literal. -/
  | inside {u v z : Text} {c : Char} (text : r = u ++ c :: v ++ z) (sep : isSeparator c)
      (space : ∃ d ∈ z.head?, isSpace d = true)
      (found : ∀ ys, matchKeyed (r ++ '"' :: ys) =
        some ((u ++ c :: v).length, u ++ c :: masked))
  /-- The value takes the quote and runs to the next space. -/
  | across {u v : Text} {c : Char} (text : r = u ++ c :: v) (sep : isSeparator c)
      (found : ∀ ys, '=' ∉ ys.takeWhile nonSpace → matchKeyed (r ++ '"' :: ys) =
        some ((r ++ '"' :: ys.takeWhile nonSpace).length, u ++ c :: masked))

/-- The match, given what stands before the value and behind it. -/
theorem matchKeyed_eq {w t value rest : Text} (hvalue : value ≠ [])
    (hhead : (dropKeyword s).bind dropSeparator = some t)
    (hs : s = w ++ (value ++ rest)) (hbehind : t.dropWhile isSpace = value ++ rest)
    (hrun : (value ++ rest).takeWhile nonSpace = value) :
    matchKeyed s = some ((w ++ value).length, maskKeyed (w ++ value)) := by
  have htaken : s.length - (value ++ rest).length + value.length = (w ++ value).length := by
    simp only [hs, List.length_append]
    omega
  have htake : s.take (w ++ value).length = w ++ value := by
    rw [hs, ← List.append_assoc, List.take_left]
  simp only [matchKeyed, hhead, Option.bind_some, hbehind, hrun, if_neg hvalue, htaken, htake]

/-- A value that is not only blanks begins behind them. -/
theorem takeWhile_nonSpace_ne_nil (hxs : xs ≠ []) (hfirst : ∀ d ∈ xs.head?, isSpace d = false) :
    xs.takeWhile nonSpace ≠ [] := by
  cases xs with
  | nil => exact absurd rfl hxs
  | cons d rest =>
      have hd : nonSpace d = true := by rw [nonSpace, hfirst d rfl]; rfl
      rw [List.takeWhile_cons_of_pos hd]
      exact List.cons_ne_nil d _

theorem head?_dropWhile_isSpace (xs : Text) :
    ∀ d ∈ (xs.dropWhile isSpace).head?, isSpace d = false := by
  intro d hd
  have hnot := List.head?_dropWhile_not isSpace xs
  rw [Option.mem_def.mp hd] at hnot
  exact hnot

theorem head?_dropWhile_nonSpace (hspace : ∃ d ∈ xs, nonSpace d = false) :
    ∃ d ∈ (xs.dropWhile nonSpace).head?, isSpace d = true := by
  have hnot := List.head?_dropWhile_not nonSpace xs
  cases hz : (xs.dropWhile nonSpace).head? with
  | none =>
      obtain ⟨d, hd, hstop⟩ := hspace
      have hall := List.dropWhile_eq_nil_iff.mp (List.head?_eq_none_iff.mp hz) d hd
      exact absurd (hall.symm.trans hstop) (by decide)
  | some d =>
      rw [hz] at hnot
      have hspace : nonSpace d = false := hnot
      simp only [nonSpace, Bool.not_eq_false'] at hspace
      exact ⟨d, rfl, hspace⟩

theorem keyedAt (r : Text) : KeyedAt r := by
  obtain hnone | ⟨w, c, t, rfl, hc, hhead⟩ := keyedHead_quote r
  · exact .nothing fun ys => by rw [matchKeyed, hnone, Option.bind_none]
  · have hbehind := fun ys => (runs_append_cons isSpace_quote t ys).2
    have hfirst := head?_dropWhile_isSpace t
    have ht : t = t.takeWhile isSpace ++ t.dropWhile isSpace :=
      List.takeWhile_append_dropWhile.symm
    -- the literal is what stands up to the blanks, and the rest `b`
    generalize t.takeWhile isSpace = blanks at ht
    generalize t.dropWhile isSpace = b at ht hbehind hfirst
    subst ht
    have hsep : ∀ value, ∃ d ∈ w ++ c :: blanks ++ value, isSeparator d := fun value =>
      ⟨c, by simp, hc⟩
    by_cases hspace : ∃ d ∈ b, nonSpace d = false
    · obtain ⟨u, e, v, hmatch, he, hmask⟩ := maskKeyed_spec (hsep (b.takeWhile nonSpace))
      have hsplit : b = b.takeWhile nonSpace ++ b.dropWhile nonSpace :=
        List.takeWhile_append_dropWhile.symm
      have hvalue : b.takeWhile nonSpace ≠ [] := by
        apply takeWhile_nonSpace_ne_nil _ hfirst
        rintro rfl
        obtain ⟨d, hd, _⟩ := hspace
        exact absurd hd List.not_mem_nil
      have htext : w ++ c :: (blanks ++ b) = u ++ e :: v ++ b.dropWhile nonSpace := by
        rw [← hmatch, List.append_assoc (w ++ c :: blanks), ← hsplit]
        simp
      refine .inside htext he (head?_dropWhile_nonSpace hspace) fun ys => ?_
      have hrest : b ++ '"' :: ys =
          b.takeWhile nonSpace ++ (b.dropWhile nonSpace ++ '"' :: ys) := by
        rw [← List.append_assoc, ← hsplit]
      have hrun := (runs_append_of_stop hspace ('"' :: ys)).1
      have hfound := matchKeyed_eq (w := w ++ c :: blanks) hvalue (hhead ys)
        (by rw [← hrest]; simp) ((hbehind ys).trans hrest) (hrest ▸ hrun)
      have hmasked := hmask [] List.not_mem_nil
      rw [List.append_nil] at hmasked
      rw [hfound, hmasked, hmatch]
    · obtain ⟨u, e, v, hmatch, he, hmask⟩ := maskKeyed_spec (hsep b)
      have htext : w ++ c :: (blanks ++ b) = u ++ e :: v := by
        rw [← hmatch]
        simp
      refine .across htext he fun ys hys => ?_
      have hall : ∀ d ∈ b, nonSpace d = true := by
        intro d hd
        by_contra hstop
        exact hspace ⟨d, hd, Bool.eq_false_iff.mpr hstop⟩
      have hquote : nonSpace '"' = true := by decide
      have hrun : (b ++ '"' :: ys).takeWhile nonSpace = b ++ '"' :: ys.takeWhile nonSpace := by
        rw [List.takeWhile_append_of_pos hall, List.takeWhile_cons_of_pos hquote]
      have hrest : b ++ '"' :: ys =
          (b ++ '"' :: ys.takeWhile nonSpace) ++ ys.dropWhile nonSpace := by simp
      have hfound := matchKeyed_eq (w := w ++ c :: blanks) (by simp) (hhead ys)
        (by rw [← hrest]; simp) ((hbehind ys).trans hrest) (hrest ▸ hrun)
      have hnoEq : '=' ∉ '"' :: ys.takeWhile nonSpace := by
        rw [List.mem_cons]
        exact fun h => h.elim (by decide) hys
      rw [hfound, ← List.append_assoc, hmask _ hnoEq]
      simp

/-! ## The spots of a literal that a match may begin or end at -/

/-- The characters that can stand inside an escape. -/
def escapeMarks : Text := "\"\\bfnrtu0123456789abcdef".toList

/-- Any other character stands for itself. -/
theorem plain_of_written {q q' : Spot} (hc : c ∉ escapeMarks) (h : q.written c = some q') :
    q = .plain ∧ q' = .plain := by
  have hescaped : "\"\\bfnrt".toList.contains c = false := by
    rw [List.contains_eq_mem, decide_eq_false_iff_not]
    exact fun hmem => hc (List.mem_append_left "u0123456789abcdef".toList hmem)
  have hhex : isLowerHex c = false := by
    rw [isLowerHex, List.contains_eq_mem, decide_eq_false_iff_not]
    exact fun hmem => hc (List.mem_append_right "\"\\bfnrtu".toList hmem)
  have hu : c ≠ 'u' := by rintro rfl; exact hc (by decide)
  have hslash : c ≠ '\\' := by rintro rfl; exact hc (by decide)
  simp only [Spot.written] at h
  cases q with
  | plain =>
      simp only [Spot.step, if_neg hslash] at h
      split_ifs at h
      exact ⟨rfl, (Option.some.inj h).symm⟩
  | esc =>
      simp only [Spot.step, if_neg hu, hescaped] at h
      cases h
  | hex left => cases left <;> simp [Spot.step, hhex] at h

theorem isSpace_escapeMarks (hc : isSpace c = true) : c ∉ escapeMarks := by
  have hall : ∀ d ∈ escapeMarks, isSpace d = false := each (by decide)
  exact fun hmem => absurd (hc.symm.trans (hall c hmem)) (by decide)

theorem separator_escapeMarks (hc : isSeparator c) : c ∉ escapeMarks := by
  obtain rfl | rfl := hc <;> decide

/-- Without a backslash a literal is left only plainly. -/
theorem foldlM_plain {q : Spot} (hr : ∀ c ∈ r, c ≠ '\\')
    (h : r.foldlM Spot.written .plain = some q) : q = .plain := by
  induction r with
  | nil => exact (Option.some.inj h).symm
  | cons c rest ih =>
      obtain ⟨hc, hrest⟩ := List.forall_mem_cons.mp hr
      rw [List.foldlM_cons] at h
      obtain ⟨q₁, hq₁, htail⟩ := Option.bind_eq_some_iff.mp h
      simp only [Spot.written, Spot.step, if_neg hc] at hq₁
      split_ifs at hq₁
      obtain rfl := Option.some.inj hq₁
      exact ih hrest htail

theorem written_masked : Written masked := by decide

/-- A match masked from its separator on is read as far as the match itself. -/
theorem written_maskedMatch {q q' : Spot} {u v z : Text} (hc : isSeparator c)
    (h : (u ++ c :: v ++ z).foldlM Spot.written q = some q') :
    (u ++ c :: masked).foldlM Spot.written q = some .plain ∧
      ∃ q₁, (c :: v).foldlM Spot.written .plain = some q₁ ∧
        z.foldlM Spot.written q₁ = some q' := by
  rw [List.append_assoc, List.foldlM_append] at h
  obtain ⟨q₀, hu, hrest⟩ := Option.bind_eq_some_iff.mp h
  rw [List.foldlM_append] at hrest
  obtain ⟨q₁, hv, hz⟩ := Option.bind_eq_some_iff.mp hrest
  have hsep := hv
  rw [List.foldlM_cons] at hsep
  obtain ⟨q₂, hq₂, _⟩ := Option.bind_eq_some_iff.mp hsep
  obtain ⟨rfl, rfl⟩ := plain_of_written (separator_escapeMarks hc) hq₂
  refine ⟨?_, q₁, hv, hz⟩
  rw [List.foldlM_append, hu, Option.bind_eq_bind, Option.bind_some, List.foldlM_cons, hq₂]
  exact written_masked

/-! ## A literal with its closing quote -/

/-- What a substitution makes of a literal in front of its quote and anything behind it:
the quote stays, or all up to the next space goes with it. -/
inductive Shown (f : Text → Text) (r : Text) : Prop
  | closed {t : Text} (text : ∀ ys, f (r ++ '"' :: ys) = t ++ '"' :: f ys)
      (written : ∀ {q}, r.foldlM Spot.written q = some .plain →
        t.foldlM Spot.written q = some .plain)
  | opened {t : Text} (text : ∀ ys, '=' ∉ ys.takeWhile nonSpace →
        f (r ++ '"' :: ys) = t ++ '*' :: f (ys.dropWhile nonSpace))
      (written : ∀ {q}, r.foldlM Spot.written q = some .plain →
        t.foldlM Spot.written q = some .plain)

theorem foldlM_of_star {q : Spot} (h : (s ++ ['*']).foldlM Spot.written q = some .plain) :
    s.foldlM Spot.written q = some .plain := by
  rw [List.foldlM_append] at h
  obtain ⟨q₁, hq₁, hstar⟩ := Option.bind_eq_some_iff.mp h
  rw [List.foldlM_cons] at hstar
  obtain ⟨q₂, hq₂, _⟩ := Option.bind_eq_some_iff.mp hstar
  obtain ⟨rfl, rfl⟩ := plain_of_written (by decide) hq₂
  exact hq₁

/-- Text that is decided before the rest of the literal. -/
theorem Shown.prefixed {f : Text → Text} {u z : Text}
    (hf : ∀ ys, f (r ++ '"' :: ys) = u ++ f (z ++ '"' :: ys))
    (hr : ∀ {q}, r.foldlM Spot.written q = some .plain →
      ∃ q₁, u.foldlM Spot.written q = some q₁ ∧ z.foldlM Spot.written q₁ = some .plain)
    (hz : Shown f z) : Shown f r := by
  cases hz with
  | @closed t text written =>
      refine .closed (t := u ++ t) (fun ys => ?_) fun h => ?_
      · rw [hf, text, List.append_assoc]
      · obtain ⟨q₁, hfirst, hz⟩ := hr h
        rw [List.foldlM_append, hfirst]
        exact written hz
  | @opened t text written =>
      refine .opened (t := u ++ t) (fun ys hys => ?_) fun h => ?_
      · rw [hf, text ys hys, List.append_assoc]
      · obtain ⟨q₁, hfirst, hz⟩ := hr h
        rw [List.foldlM_append, hfirst]
        exact written hz

theorem masked_eq : masked = "***MASKED**".toList ++ ['*'] := by decide

/-- The scan of a literal for key names: by the number of characters left. -/
theorem shown_keyed (r : Text) : Shown (sub matchKeyed) r := by
  induction hlen : r.length using Nat.strong_induction_on generalizing r with
  | _ n ih =>
      subst hlen
      cases keyedAt r with
      | nothing found =>
          cases r with
          | nil => exact .closed (t := []) (fun ys => sub_cons (found ys)) id
          | cons x rest =>
              refine (ih rest.length (Nat.lt_succ_self _) rest rfl).prefixed (u := [x])
                (fun ys => sub_cons (found ys)) fun h => ?_
              rw [List.foldlM_cons] at h
              obtain ⟨q₁, hq₁, hrest⟩ := Option.bind_eq_some_iff.mp h
              exact ⟨q₁, by simp [hq₁], hrest⟩
      | @inside u v z c text sep space found =>
          subst text
          have hshort : z.length < (u ++ c :: v ++ z).length := by
            simp only [List.length_append, List.length_cons]
            omega
          refine (ih z.length hshort z rfl).prefixed (u := u ++ c :: masked) (fun ys => ?_)
            fun h => ?_
          · have hfound := found ys
            rw [List.append_assoc] at hfound ⊢
            exact sub_match hfound (by simp)
          · obtain ⟨hmasked, q₁, _, hz⟩ := written_maskedMatch sep h
            -- the space behind the value stands outside any escape
            obtain ⟨d, hd, hspace⟩ := space
            obtain ⟨tail, rfl⟩ := List.head?_eq_some_iff.mp (Option.mem_def.mp hd)
            have hhead := hz
            rw [List.foldlM_cons] at hhead
            obtain ⟨q₂, hq₂, _⟩ := Option.bind_eq_some_iff.mp hhead
            obtain ⟨rfl, _⟩ := plain_of_written (isSpace_escapeMarks hspace) hq₂
            exact ⟨.plain, hmasked, hz⟩
      | @across u v c text sep found =>
          subst text
          refine .opened (t := u ++ c :: "***MASKED**".toList) (fun ys hys => ?_) fun h => ?_
          · have hfound := found ys hys
            have hsplit : u ++ c :: v ++ '"' :: ys =
                (u ++ c :: v ++ '"' :: ys.takeWhile nonSpace) ++ ys.dropWhile nonSpace := by
              rw [List.append_assoc (u ++ c :: v), List.cons_append,
                List.takeWhile_append_dropWhile]
            rw [hsplit] at hfound ⊢
            rw [sub_match hfound (by simp), masked_eq]
            simp only [List.append_assoc, List.cons_append, List.nil_append]
          · rw [← List.append_nil (u ++ c :: v)] at h
            have hmasked := (written_maskedMatch sep h).1
            rw [masked_eq, ← List.cons_append, ← List.append_assoc] at hmasked
            exact foldlM_of_star hmasked

/-! ## The token patterns -/

section Token

variable {head : Text} {inClass : Char → Bool} {least n : ℕ} {most : Option ℕ} {rep : Text}

/-- A token is its fixed beginning and characters of its class. -/
theorem matchToken_spec (hm : matchToken head inClass least most s = some (n, rep)) :
    ∃ body rest, s = (head ++ body) ++ rest ∧ n = (head ++ body).length ∧
      (∀ c ∈ body, inClass c = true) ∧ rep = masked := by
  simp only [matchToken] at hm
  split_ifs at hm with hfound
  obtain ⟨hn, rfl⟩ := Prod.mk.inj (Option.some.inj hm)
  obtain ⟨tail, rfl⟩ := List.isPrefixOf_iff_prefix.mp hfound.1
  rw [List.drop_left] at hn
  generalize hrun : tail.takeWhile inClass = run at hn
  have hclass : ∀ c ∈ run, inClass c = true := fun c hc =>
    List.mem_takeWhile_imp (hrun ▸ hc)
  have htail : tail = run ++ tail.dropWhile inClass := by
    rw [← hrun, List.takeWhile_append_dropWhile]
  generalize tail.dropWhile inClass = rest at htail
  subst htail
  cases most with
  | none => exact ⟨run, rest, (List.append_assoc head run rest).symm, by simp [← hn], hclass, rfl⟩
  | some k =>
      refine ⟨run.take k, run.drop k ++ rest, ?_, ?_, ?_, rfl⟩
      · rw [List.append_assoc, ← List.append_assoc (run.take k), List.take_append_drop]
      · rw [← hn, List.length_append, List.length_take, min_comm]
        rfl
      · exact fun c hc => hclass c (List.mem_of_mem_take hc)

/-- A token pattern reads only its own characters. -/
theorem bounded_matchToken (hhead : head ≠ []) :
    Bounded (fun c => head.contains c || inClass c) (matchToken head inClass least most) := by
  constructor
  · cases head with
    | nil => exact absurd rfl hhead
    | cons a rest => rfl
  · intro s n rep hm
    obtain ⟨body, rest, rfl, rfl, _, _⟩ := matchToken_spec hm
    have hpos := List.length_pos_of_ne_nil hhead
    simp only [List.length_append]
    omega
  · intro c hc s ys
    rw [Bool.or_eq_false_iff, List.contains_eq_mem, decide_eq_false_iff_not] at hc
    have hstart : head.isPrefixOf (s ++ c :: ys) = head.isPrefixOf s := by
      rw [Bool.eq_iff_iff, List.isPrefixOf_iff_prefix, List.isPrefixOf_iff_prefix]
      exact prefix_append_cons hc.1
    by_cases hs : head.isPrefixOf s
    · obtain ⟨tail, rfl⟩ := List.isPrefixOf_iff_prefix.mp hs
      have hrun : ((head ++ tail ++ c :: ys).drop head.length).takeWhile inClass =
          ((head ++ tail).drop head.length).takeWhile inClass := by
        rw [List.append_assoc, List.drop_left, List.drop_left, (runs_append_cons hc.2 tail ys).1]
      simp only [matchToken, hstart, hrun]
    · simp only [matchToken, hstart, hs, false_and, if_false, Bool.false_eq_true]

/-- A token stands outside escapes, and its mask is read as the token is. -/
theorem written_token {a : Char} (ha : a ∉ escapeMarks) (hhead : head.head? = some a)
    (hslash : '\\' ∉ head) (hclass : inClass '\\' = false) {w : Text} {q q' : Spot}
    (hm : matchToken head inClass least most (w ++ ys) = some (w.length, rep))
    (hw : w.foldlM Spot.written q = some q') : rep.foldlM Spot.written q = some q' := by
  obtain ⟨body, rest, htext, hlen, hbody, rfl⟩ := matchToken_spec hm
  obtain ⟨rfl, rfl⟩ := List.append_inj htext hlen
  obtain ⟨tail, rfl⟩ := List.head?_eq_some_iff.mp hhead
  rw [List.cons_append, List.foldlM_cons] at hw
  obtain ⟨q₁, hq₁, hrest⟩ := Option.bind_eq_some_iff.mp hw
  obtain ⟨rfl, rfl⟩ := plain_of_written ha hq₁
  have hplain : ∀ c ∈ tail ++ body, c ≠ '\\' := by
    rintro c hc rfl
    obtain hc | hc := List.mem_append.mp hc
    · exact hslash (List.mem_cons_of_mem a hc)
    · exact absurd ((hbody _ hc).symm.trans hclass) (by decide)
  obtain rfl := foldlM_plain hplain hrest
  exact written_masked

/-- A token pattern keeps what was made of a literal. -/
theorem Shown.token {f : Text → Text} {a : Char} (ha : a ∉ escapeMarks)
    (hhead : head.head? = some a) (hslash : '\\' ∉ head) (hclass : inClass '\\' = false)
    (hquote : (head.contains '"' || inClass '"') = false)
    (hstar : (head.contains '*' || inClass '*') = false) (h : Shown f r) :
    Shown (fun s => sub (matchToken head inClass least most) (f s)) r := by
  have hne : head ≠ [] := by
    rintro rfl
    cases hhead
  have hbounded := @bounded_matchToken head inClass least most hne
  have hwritten : ∀ {t : Text} {q}, t.foldlM Spot.written q = some .plain →
      (sub (matchToken head inClass least most) t).foldlM Spot.written q = some .plain :=
    fun ht => hbounded.foldlM_sub (written_token ha hhead hslash hclass) ht
  cases h with
  | @closed t text written =>
      refine .closed (fun ys => ?_) fun h => hwritten (written h)
      rw [text, hbounded.sub_append_cons hquote]
  | @opened t text written =>
      refine .opened (fun ys hys => ?_) fun h => hwritten (written h)
      rw [text ys hys, hbounded.sub_append_cons hstar]

end Token

theorem shown_mask (r : Text) : Shown mask r :=
  ((shown_keyed r).token (a := 's') (by decide) rfl (by decide) (by decide) (by decide)
    (by decide)).token (a := 'A') (by decide) rfl (by decide) (by decide) (by decide) (by decide)

/-- Masking keeps the closing quote of a literal. -/
def Closes (r : Text) : Prop := (mask (r ++ ['"'])).getLast? = some '"'

instance (r : Text) : Decidable (Closes r) :=
  inferInstanceAs (Decidable ((mask (r ++ ['"'])).getLast? = some '"'))

/-- What is left of a literal, but for its last character. -/
def maskLiteral (r : Text) : Text := (mask (r ++ ['"'])).dropLast

/-- A literal whose quote stays is masked apart from what follows it. -/
theorem mask_closed (hr : Closes r) (ys : Text) :
    mask (r ++ '"' :: ys) = maskLiteral r ++ '"' :: mask ys := by
  cases shown_mask r with
  | @closed t text _ =>
      have halone : mask (r ++ ['"']) = t ++ ['"'] := text []
      rw [text, maskLiteral, halone, List.dropLast_concat]
  | @opened t text _ =>
      have halone : mask (r ++ ['"']) = t ++ ['*'] := text [] List.not_mem_nil
      rw [Closes, halone, List.getLast?_concat] at hr
      exact absurd (Option.some.inj hr) (by decide)

/-- A literal whose quote goes takes all up to the next space with it. -/
theorem mask_opened (hr : ¬ Closes r) (hys : '=' ∉ ys.takeWhile nonSpace) :
    mask (r ++ '"' :: ys) = maskLiteral r ++ '*' :: mask (ys.dropWhile nonSpace) := by
  cases shown_mask r with
  | @closed t text _ =>
      have halone : mask (r ++ ['"']) = t ++ ['"'] := text []
      rw [Closes, halone, List.getLast?_concat] at hr
      exact absurd rfl hr
  | @opened t text _ =>
      have halone : mask (r ++ ['"']) = t ++ ['*'] := text [] List.not_mem_nil
      rw [text ys hys, maskLiteral, halone, List.dropLast_concat]

theorem written_maskLiteral (hr : Written r) : Written (maskLiteral r) := by
  cases shown_mask r with
  | @closed t text written =>
      have halone : mask (r ++ ['"']) = t ++ ['"'] := text []
      rw [maskLiteral, halone, List.dropLast_concat]
      exact written hr
  | @opened t text written =>
      have halone : mask (r ++ ['"']) = t ++ ['*'] := text [] List.not_mem_nil
      rw [maskLiteral, halone, List.dropLast_concat]
      exact written hr

/-- The literal with its quote shows what is left of it and whether the quote is. -/
theorem mask_literal (r : Text) :
    mask (r ++ ['"']) = maskLiteral r ++ [if Closes r then '"' else '*'] := by
  by_cases hr : Closes r
  · rw [if_pos hr]
    exact mask_closed hr []
  · rw [if_neg hr]
    exact mask_opened hr List.not_mem_nil

/-! ## Text without key names -/

/-- Every key name, and every token, has one of the other characters. -/
def isQuiet (c : Char) : Bool := !"pcohbk".toList.contains (foldCase c)

theorem matchKeyed_quiet (hs : ∀ c ∈ s, isQuiet c = true) :
    matchKeyed (s ++ '"' :: ys) = none ∧ matchKeyed s = none := by
  have hkey : ∀ k ∈ keywords, k.any "pcohbk".toList.contains = true := by decide
  have hno : ∀ k ∈ keywords, ¬ k <+: s.map foldCase := by
    intro k hk hstart
    obtain ⟨c, hc, hloud⟩ := List.any_eq_true.mp (hkey k hk)
    obtain ⟨d, hd, rfl⟩ := List.mem_map.mp (hstart.subset hc)
    have hquiet := hs d hd
    rw [isQuiet, hloud] at hquiet
    exact absurd hquiet (by decide)
  have hnone : ∀ t : Text, (∀ k ∈ keywords, ¬ k <+: t.map foldCase) → matchKeyed t = none := by
    intro t ht
    have hfind : keywords.find? (fun k => k.isPrefixOf (t.map foldCase)) = none := by
      rw [List.find?_eq_none]
      exact fun k hk hstart => ht k hk (List.isPrefixOf_iff_prefix.mp hstart)
    simp only [matchKeyed, dropKeyword, hfind, Option.map_none, Option.bind_none]
  refine ⟨hnone _ fun k hk hstart => hno k hk ?_, hnone s hno⟩
  rw [List.map_append] at hstart
  exact (prefix_append_cons (quote_notMem_keyword k hk)).mp hstart

theorem matchToken_quiet {head : Text} {inClass : Char → Bool} {least : ℕ} {most : Option ℕ}
    (hquote : '"' ∉ head) (hloud : ∃ c ∈ head, isQuiet c = false)
    (hs : ∀ c ∈ s, isQuiet c = true) :
    matchToken head inClass least most (s ++ '"' :: ys) = none ∧
      matchToken head inClass least most s = none := by
  have hno : ¬ head <+: s := by
    intro hstart
    obtain ⟨c, hc, hstop⟩ := hloud
    exact absurd ((hs c (hstart.subset hc)).symm.trans hstop) (by decide)
  have hnone : ∀ t : Text, ¬ head <+: t → matchToken head inClass least most t = none := by
    intro t ht
    simp only [matchToken, List.isPrefixOf_iff_prefix, ht, false_and, if_false]
  exact ⟨hnone _ fun h => hno ((prefix_append_cons hquote).mp h), hnone s hno⟩

/-- A substitution that finds nothing in some text nor over the quote behind it. -/
theorem sub_quiet {m : Matcher Char}
    (hm : ∀ s ys : Text, (∀ c ∈ s, isQuiet c = true) → m (s ++ '"' :: ys) = none ∧ m s = none)
    (hs : ∀ c ∈ s, isQuiet c = true) (ys : Text) :
    sub m (s ++ '"' :: ys) = s ++ '"' :: sub m ys ∧ sub m s = s := by
  have hpart : ∀ t, t <:+ s → ∀ c ∈ t, isQuiet c = true := fun t ht c hc => hs c (ht.subset hc)
  have hquote : sub m ('"' :: ys) = '"' :: sub m ys :=
    sub_cons (hm [] ys fun c hc => absurd hc List.not_mem_nil).1
  constructor
  · rw [sub_append_of_silent fun t _ ht => (hm t ys (hpart t ht)).1, hquote]
  · have hsilent : sub m (s ++ []) = s ++ sub m [] := sub_append_of_silent fun t _ ht => by
      rw [List.append_nil]
      exact (hm t [] (hpart t ht)).2
    rwa [List.append_nil, sub_nil, List.append_nil] at hsilent

theorem mask_quiet (hs : ∀ c ∈ s, isQuiet c = true) (ys : Text) :
    mask (s ++ '"' :: ys) = s ++ '"' :: mask ys ∧ mask s = s := by
  have hkeyed := sub_quiet (fun s ys hs => matchKeyed_quiet hs) hs
  have hsk := sub_quiet (m := matchSk)
    (fun s ys hs => matchToken_quiet (by decide) ⟨'k', by decide, by decide⟩ hs) hs
  have hakia := sub_quiet (m := matchAkia)
    (fun s ys hs => matchToken_quiet (by decide) ⟨'K', by decide, by decide⟩ hs) hs
  constructor
  · rw [mask, (hkeyed ys).1, (hsk _).1, (hakia _).1, mask]
  · rw [mask, (hkeyed []).2, (hsk []).2, (hakia []).2]

theorem closes_of_quiet (hr : ∀ c ∈ r, isQuiet c = true) : Closes r := by
  have halone : mask (r ++ ['"']) = r ++ ['"'] := (mask_quiet hr []).1
  rw [Closes, halone, List.getLast?_concat]

theorem isQuiet_of_layout (hc : isLayout c = true) : isQuiet c = true :=
  layout_cases (P := fun c => isQuiet c = true) (by decide) (by decide) hc

/-! ## A laid out text -/

/-- The masked text of spans: behind a literal whose quote went, the gap begins with its
first space. -/
def maskSpell (g : Text) : List (Text × Text) → Text
  | [] => g
  | (r, h) :: rest =>
      if Closes r then g ++ '"' :: (maskLiteral r ++ '"' :: maskSpell h rest)
      else g ++ '"' :: (maskLiteral r ++ '*' :: maskSpell (h.dropWhile nonSpace) rest)

/-- Up to the next space a laid out text is its first gap. -/
theorem runs_spell {rest : List (Text × Text)} (hspace : rest = [] ∨ ' ' ∈ h) :
    (Spans.spell h rest).takeWhile nonSpace = h.takeWhile nonSpace ∧
      (Spans.spell h rest).dropWhile nonSpace = Spans.spell (h.dropWhile nonSpace) rest := by
  cases rest with
  | nil => exact ⟨rfl, rfl⟩
  | cons e rest =>
      obtain hnil | hmem := hspace
      · cases hnil
      · exact runs_append_of_stop ⟨' ', hmem, by decide⟩ _

/-- Masking a laid out text masks its literals, each with what it drags along. -/
theorem mask_spell {rest : List (Text × Text)} (hl : Spans.Laid g rest) :
    mask (Spans.spell g rest) = maskSpell g rest := by
  induction rest generalizing g with
  | nil => exact (mask_quiet (fun c hc => isQuiet_of_layout (hl.gap c hc)) []).2
  | cons e rest ih =>
      obtain ⟨r, h⟩ := e
      have hgap := mask_quiet fun c hc => isQuiet_of_layout (hl.gap c hc)
      cases hl with
      | literal hg hspace tail =>
          rw [Spans.spell, (hgap _).1, maskSpell]
          split_ifs with hr
          · rw [mask_closed hr, ih tail]
          · obtain ⟨htake, hdrop⟩ := runs_spell hspace
            have hequal : '=' ∉ (Spans.spell h rest).takeWhile nonSpace := by
              rw [htake]
              intro hmem
              have := tail.gap '=' ((List.takeWhile_sublist _).subset hmem)
              exact absurd this (by decide)
            have hlater : Spans.Laid (h.dropWhile nonSpace) rest :=
              tail.regap fun c hc => tail.gap c ((List.dropWhile_sublist _).subset hc)
            rw [mask_opened hr hequal, hdrop, ih hlater]

end Logging
end System2
