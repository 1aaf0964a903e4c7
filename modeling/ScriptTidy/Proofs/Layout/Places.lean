import Mathlib.Algebra.Ring.Int.Defs
import Mathlib.Algebra.Ring.Nat
import Mathlib.Data.List.TakeWhile
import ScriptTidy.Layout.Basic
import ScriptTidy.Proofs.Text.Decoding

/-!
# Places in the output

The formatter counts lines and columns piece by piece while it writes. This file compares the
counters with the text as a whole: they agree as long as no character is cut in two by a seam
between pieces.

* `behind_eq` : the place behind a whole text, by its line feeds and the units of its last line.
* `behindAll_eq` : the place behind pieces is the place behind the text they make up.
-/

namespace ScriptTidy

/-- What stands behind the last line feed. -/
def lastLine (text : Bytes) : Bytes := (text.reverse.takeWhile (· != 0x0A)).reverse

/-- The length of a text in UTF-16 units; a byte that is no part of a character counts one. -/
def utf16Units (text : Bytes) : Nat := ((Utf8.chars text).map utf16Width).sum

theorem lastLine_of_not_mem {text : Bytes} (h : 0x0A ∉ text) : lastLine text = text := by
  have hall : ∀ b ∈ text.reverse, (b != 0x0A) = true := by
    intro b hb
    rw [bne_iff_ne]
    rintro rfl
    exact h (List.mem_reverse.mp hb)
  rw [lastLine, List.takeWhile_eq_self_iff.mpr hall, List.reverse_reverse]

theorem lastLine_append (x y : Bytes) : lastLine (x ++ 0x0A :: y) = lastLine y := by
  unfold lastLine
  rw [List.reverse_append, List.reverse_cons, List.append_assoc, List.takeWhile_append]
  split
  next hlen =>
    have hall := (List.takeWhile_prefix _).eq_of_length hlen
    rw [hall, List.singleton_append, List.takeWhile_cons_of_neg (by decide), List.append_nil]
  next => rfl

/-! ## One piece -/

namespace Place

variable {p : Place} {a b : Bytes}

/-- No character goes across the seam between two texts. -/
def Seam (a b : Bytes) : Prop := Utf8.Fresh b ∨ ∀ x ∈ a.getLast?, x < 0x80

theorem seam_of_ascii {c : Bytes} (hne : b ≠ []) (h : ∀ x ∈ b, x < 0x80) : Seam (a ++ b) c := by
  refine Or.inr fun x hx => h x ?_
  rw [List.getLast?_append, List.getLast?_eq_some_getLast hne] at hx
  cases hx
  exact List.getLast_mem hne

theorem chars_append (h : Seam a b) : Utf8.chars (a ++ b) = Utf8.chars a ++ Utf8.chars b := by
  have hglyphs : Utf8.glyphs (a ++ b) = Utf8.glyphs a ++ Utf8.glyphs b := by
    rcases h with h | h
    · exact Utf8.glyphs_append a h
    · exact Utf8.glyphs_append_of_getLast h b
  rw [Utf8.chars, hglyphs, List.map_append]
  rfl

theorem behind_append (h : Seam a b) : p.behind (a ++ b) = (p.behind a).behind b := by
  rw [behind, chars_append h, List.foldl_append]
  rfl

theorem newline_not_mem_chars {text : Bytes} (h : 0x0A ∉ text) : '\n' ∉ Utf8.chars text := by
  intro hmem
  obtain ⟨g, hg, hchar⟩ := List.mem_map.mp hmem
  have hbytes : g.bytes = [0x0A] := by
    rcases (Utf8.isDecoding_glyphs text).bytes_eq g hg with hr | hb
    · rw [hchar] at hr
      exact absurd hr (by decide)
    · rw [hb, hchar]
      rfl
  refine h ?_
  rw [← Utf8.bytes_glyphs text]
  exact List.mem_flatMap.mpr ⟨g, hg, by rw [hbytes]; exact List.mem_singleton_self _⟩

theorem behind_of_not_mem (h : 0x0A ∉ a) : p.behind a = ⟨p.line, p.column + utf16Units a⟩ := by
  have hnot := newline_not_mem_chars h
  unfold behind utf16Units
  generalize Utf8.chars a = cs at hnot
  induction cs generalizing p with
  | nil => simp
  | cons c cs ih =>
    have hc : (c == '\n') = false := by
      rw [beq_eq_false_iff_ne]
      rintro rfl
      exact hnot List.mem_cons_self
    rw [List.foldl_cons, hc, if_neg Bool.false_ne_true,
      ih fun hm => hnot (List.mem_cons_of_mem c hm), List.map_cons, List.sum_cons]
    simp only [Place.mk.injEq, true_and]
    omega

theorem behind_newline (y : Bytes) : p.behind (0x0A :: y) = Place.behind ⟨p.line + 1, 0⟩ y := by
  rw [behind, Utf8.chars, Utf8.glyphs_ascii_cons (by decide)]
  rfl

theorem column_of_start (text : Bytes) : (if (0x0A : UInt8) ∈ text then
    (utf16Units (lastLine text) : Int) else 0 + utf16Units text) = utf16Units (lastLine text) := by
  split
  next => rfl
  next h => rw [lastLine_of_not_mem h, Int.zero_add]

/-- **The counters are right**: lines are counted by line feeds, columns in units behind the
last of them. -/
theorem behind_eq (p : Place) (text : Bytes) : p.behind text =
    ⟨p.line + text.count 0x0A,
      if 0x0A ∈ text then utf16Units (lastLine text) else p.column + utf16Units text⟩ := by
  induction hn : text.length using Nat.strong_induction_on generalizing text p with
  | h n ih =>
    -- Cut the text at its first line feed: the counters start anew behind it.
    by_cases hmem : (0x0A : UInt8) ∈ text
    · obtain ⟨x, y, rfl, hx⟩ := List.eq_append_cons_of_mem hmem
      have hlt : y.length < n := by
        rw [← hn, List.length_append, List.length_cons]
        omega
      have hseam : Seam x (0x0A :: y) := Or.inl (Utf8.fresh_cons (by decide))
      rw [behind_append hseam, behind_of_not_mem hx, behind_newline, ih _ hlt _ y rfl,
        if_pos hmem, lastLine_append, List.count_append, List.count_eq_zero_of_not_mem hx,
        List.count_cons_self]
      dsimp only
      rw [column_of_start]
      simp only [Place.mk.injEq, and_true]
      push_cast
      omega
    · rw [behind_of_not_mem hmem, if_neg hmem, List.count_eq_zero_of_not_mem hmem]
      simp

/-- The place behind the whole output up to some point. -/
theorem behind_start (text : Bytes) :
    Place.behind ⟨1, 0⟩ text = ⟨1 + text.count 0x0A, utf16Units (lastLine text)⟩ := by
  rw [behind_eq, column_of_start]

/-! ## Many pieces -/

/-- The pieces can be written behind `text` without a character going across a seam. -/
def Seamless : (text : Bytes) → List Bytes → Prop
  | _, [] => True
  | text, piece :: rest => Seam text piece ∧ Seamless (text ++ piece) rest

theorem behindAll_eq {text : Bytes} {pieces : List Bytes} (h : Seamless text pieces) :
    (p.behind text).behindAll pieces = p.behind (text ++ pieces.flatten) := by
  induction pieces generalizing text with
  | nil => rw [List.flatten_nil, List.append_nil]; rfl
  | cons piece rest ih =>
    obtain ⟨hseam, hrest⟩ := h
    show ((p.behind text).behind piece).behindAll rest = _
    rw [← behind_append hseam, ih hrest, List.flatten_cons, List.append_assoc]

theorem seamless_append {text : Bytes} {xs ys : List Bytes} :
    Seamless text (xs ++ ys) ↔ Seamless text xs ∧ Seamless (text ++ xs.flatten) ys := by
  induction xs generalizing text with
  | nil => simp [Seamless]
  | cons x xs ih => simp [Seamless, ih, and_assoc]

theorem seamless_of_fresh {text : Bytes} {pieces : List Bytes}
    (h : ∀ piece ∈ pieces, Utf8.Fresh piece) : Seamless text pieces := by
  induction pieces generalizing text with
  | nil => trivial
  | cons piece rest ih =>
    exact ⟨Or.inl (h piece List.mem_cons_self), ih fun x hx => h x (List.mem_cons_of_mem piece hx)⟩

end Place

end ScriptTidy
