import Mathlib.Data.List.Induction
import ScriptTidy.Proofs.Markup.ScriptPlaces

/-!
# Which texts are scripts

While a document is read, one flag tells whether a text that comes next is a script. This file says
what the flag stands for: the nearest tag in front of the text opens a script that is formatted.

* `StartsScript` : tags that open a script, by their name and attributes.
* `IsScript`, `ScriptIn` : a text behind such a tag, without the flag.
* `insideAfter_iff`, `isScriptText_iff` : the flag tells exactly this.
-/

namespace ScriptTidy

namespace Markup

open InlineScript (typeOf opensScript opensAfter isScriptText isScriptType scriptTypes)

/-- Whether the token is a tag. -/
def TokenKind.isTag : TokenKind → Bool
  | .startTag _ | .selfClosingTag _ | .endTag => true
  | _ => false

/-- The last tag among the tokens. -/
def nearestTag? (before : List MarkupToken) : Option TokenKind :=
  (before.map (·.kind)).reverse.find? TokenKind.isTag

/-- `value` is the value of the last type attribute, or empty if there is no such attribute. -/
inductive TypeValue : List Attribute → (value : Bytes) → Prop
  | absent {attributes} (h : ∀ a ∈ attributes, a.key ≠ utf8 "type") : TypeValue attributes []
  | last {front a behind} (ha : a.key = utf8 "type")
    (hbehind : ∀ b ∈ behind, b.key ≠ utf8 "type") :
    TypeValue (front ++ a :: behind) a.value

/-- The tag opens a script that is formatted: one without a source, whose type up to a semicolon,
without white space around it and in lower case, is one of the types of scripts. -/
structure StartsScript (tag : Tag) : Prop where
  name : tag.name = utf8 "script"
  source : ∀ a ∈ tag.attributes, a.key ≠ utf8 "src"
  type : ∃ value, TypeValue tag.attributes value
    ∧ ∃ name ∈ scriptTypes, lowerText (trimBlank (value.takeWhile (· != 0x3B))) = utf8 name

/-- The token behind the tokens `before` is a script to format: a text that is not blank, behind a
tag that opens a script. -/
structure IsScript (before : List MarkupToken) (t : MarkupToken) : Prop where
  text : t.kind = .text
  tag : ∃ tag, nearestTag? before = some (.startTag tag) ∧ StartsScript tag
  notBlank : ∃ g ∈ Utf8.glyphs t.raw, isBlank g.char = false

/-- The tokens have the script `t`, with `before` in front of it. -/
structure ScriptIn (tokens before : List MarkupToken) (t : MarkupToken)
    (behind : List MarkupToken) : Prop where
  tokens_eq : tokens = before ++ t :: behind
  isScript : IsScript before t

/-! ## Tags -/

theorem typeOf_concat (attributes : List Attribute) (a : Attribute) : typeOf (attributes ++ [a])
    = if a.key = utf8 "type" then a.value else typeOf attributes := by
  unfold typeOf
  rw [List.filter_append, List.filter_singleton]
  by_cases ha : a.key = utf8 "type"
  · rw [beq_iff_eq.mpr ha, cond_true, List.getLast?_concat, if_pos ha]
  · have hne : (a.key == utf8 "type") = false := beq_eq_false_iff_ne.mpr ha
    rw [hne, cond_false, List.append_nil, if_neg ha]

theorem TypeValue.concat {attributes : List Attribute} {value : Bytes} {a : Attribute}
    (h : TypeValue attributes value) (ha : a.key ≠ utf8 "type") :
    TypeValue (attributes ++ [a]) value := by
  have hmore : ∀ {l : List Attribute}, (∀ b ∈ l, b.key ≠ utf8 "type") →
      ∀ b ∈ l ++ [a], b.key ≠ utf8 "type" := by
    intro l hl b hb
    rcases List.mem_append.mp hb with hb | hb
    · exact hl b hb
    · rw [List.mem_singleton.mp hb]
      exact ha
  cases h with
  | absent h => exact .absent (hmore h)
  | last hc hbehind =>
    rw [List.append_assoc, List.cons_append]
    exact .last hc (hmore hbehind)

theorem typeValue_typeOf (attributes : List Attribute) :
    TypeValue attributes (typeOf attributes) := by
  induction attributes using List.reverseRecOn with
  | nil => exact .absent fun a ha => by cases ha
  | append_singleton attributes a ih =>
    rw [typeOf_concat]
    split
    next ha => exact .last ha fun b hb => by cases hb
    next ha => exact ih.concat ha

/-- There is one last type attribute at most. -/
theorem TypeValue.eq_typeOf {attributes : List Attribute} {value : Bytes}
    (h : TypeValue attributes value) : value = typeOf attributes := by
  have hfilter : ∀ {l : List Attribute}, (∀ a ∈ l, a.key ≠ utf8 "type") →
      l.filter (fun a => a.key == utf8 "type") = [] := by
    intro l hl
    rw [List.filter_eq_nil_iff]
    intro a ha hkey
    exact hl a ha (eq_of_beq hkey)
  unfold typeOf
  cases h with
  | absent h => rw [hfilter h, List.getLast?_nil]
  | @last front a behind ha hbehind =>
    rw [List.filter_append, List.filter_cons, beq_iff_eq.mpr ha, if_pos rfl, hfilter hbehind,
      List.getLast?_concat]

theorem opensScript_iff {tag : Tag} : opensScript tag = true ↔ StartsScript tag := by
  unfold opensScript isScriptType
  simp only [Bool.and_eq_true, beq_iff_eq, Bool.not_eq_true', List.any_eq_false, List.any_eq_true]
  constructor
  · rintro ⟨⟨hname, hsource⟩, name, hmem, htype⟩
    exact ⟨hname, hsource, _, typeValue_typeOf _, name, hmem, htype.symm⟩
  · rintro ⟨hname, hsource, value, hvalue, name, hmem, htype⟩
    rw [hvalue.eq_typeOf] at htype
    exact ⟨⟨hname, hsource⟩, name, hmem, htype.symm⟩

/-! ## The flag -/

/-- The flag behind tokens, at the start of a document false. -/
def insideAfter (before : List MarkupToken) : Bool :=
  before.foldl (fun inside t => opensAfter inside t.kind) false

theorem insideAfter_concat (before : List MarkupToken) (t : MarkupToken) :
    insideAfter (before ++ [t]) = opensAfter (insideAfter before) t.kind := by
  unfold insideAfter
  rw [List.foldl_append, List.foldl_cons, List.foldl_nil]

theorem nearestTag?_concat (before : List MarkupToken) (t : MarkupToken) :
    nearestTag? (before ++ [t]) = if t.kind.isTag then some t.kind else nearestTag? before := by
  unfold nearestTag?
  rw [List.map_append, List.map_singleton, List.reverse_append, List.reverse_singleton,
    List.singleton_append, List.find?_cons]
  cases t.kind.isTag with
  | true => rfl
  | false => rfl

/-- **The flag is set by the nearest tag.** -/
theorem insideAfter_iff {before : List MarkupToken} : insideAfter before = true
    ↔ ∃ tag, nearestTag? before = some (.startTag tag) ∧ StartsScript tag := by
  induction before using List.reverseRecOn with
  | nil =>
    refine ⟨fun h => (by cases h), ?_⟩
    rintro ⟨tag, h, -⟩
    cases h
  -- a tag decides by itself, any other token leaves the flag as it was
  | append_singleton before t ih =>
    rw [insideAfter_concat, nearestTag?_concat]
    cases t.kind with
    | startTag tag =>
      rw [TokenKind.isTag, if_pos rfl, opensAfter, opensScript_iff]
      refine ⟨fun h => ⟨tag, rfl, h⟩, ?_⟩
      rintro ⟨_, heq, h⟩
      cases heq
      exact h
    | selfClosingTag tag =>
      refine ⟨fun h => (by cases h), ?_⟩
      rintro ⟨_, heq, -⟩
      cases heq
    | endTag =>
      refine ⟨fun h => (by cases h), ?_⟩
      rintro ⟨_, heq, -⟩
      cases heq
    | text => exact ih
    | remark => exact ih
    | cutTag => exact ih

/-- Trimming leaves nothing of a text that is blank, and something of any other. -/
theorem trimBlank_eq_nil {text : Bytes} :
    trimBlank text = [] ↔ ∀ g ∈ Utf8.glyphs text, isBlank g.char = true := by
  have hbytes := (Utf8.isDecoding_glyphs text).bytes_ne_nil
  unfold trimBlank
  dsimp only
  generalize Utf8.glyphs text = gs at hbytes
  constructor
  · intro hnil
    have hends : (gs.dropWhile fun g => isBlank g.char).reverse.dropWhile
        (fun g => isBlank g.char) = [] := by
      refine List.eq_nil_iff_forall_not_mem.mpr fun g hg => ?_
      rw [List.flatMap_eq_nil_iff] at hnil
      have hmem : g ∈ gs := (List.dropWhile_sublist _).subset
        (List.mem_reverse.mp ((List.dropWhile_sublist _).subset hg))
      exact hbytes g hmem (hnil g (List.mem_reverse.mpr hg))
    rw [List.dropWhile_eq_nil_iff] at hends
    intro g hg
    rw [← List.takeWhile_append_dropWhile (p := fun g : Glyph => isBlank g.char) (l := gs)] at hg
    rcases List.mem_append.mp hg with hg | hg
    · exact List.mem_takeWhile_imp (p := fun g : Glyph => isBlank g.char) hg
    · exact hends g (List.mem_reverse.mpr hg)
  · intro hall
    rw [List.dropWhile_eq_nil_iff.mpr hall]
    rfl

theorem isScriptText_iff {before : List MarkupToken} {t : MarkupToken} :
    isScriptText (insideAfter before) t = true ↔ IsScript before t := by
  have hblank : trimBlank t.raw ≠ [] ↔ ∃ g ∈ Utf8.glyphs t.raw, isBlank g.char = false := by
    rw [Ne, trimBlank_eq_nil]
    simp only [not_forall, Bool.not_eq_true, exists_prop]
  unfold isScriptText
  rw [Bool.and_eq_true, Bool.and_eq_true, insideAfter_iff, beq_iff_eq, Bool.not_eq_true',
    List.isEmpty_eq_false_iff, hblank]
  constructor
  · rintro ⟨⟨htag, htext⟩, hblank⟩
    exact ⟨htext, htag, hblank⟩
  · rintro ⟨htext, htag, hblank⟩
    exact ⟨⟨htag, htext⟩, hblank⟩

instance (before : List MarkupToken) (t : MarkupToken) : Decidable (IsScript before t) :=
  decidable_of_iff _ isScriptText_iff

/-- A script is not empty. -/
theorem IsScript.raw_ne_nil {before : List MarkupToken} {t : MarkupToken} (h : IsScript before t) :
    t.raw ≠ [] := by
  intro hnil
  obtain ⟨g, hg, -⟩ := h.notBlank
  rw [hnil, Utf8.glyphs_nil] at hg
  cases hg

/-- More tokens leave the scripts in front of them. -/
theorem ScriptIn.append {tokens before behind : List MarkupToken} {t : MarkupToken}
    (h : ScriptIn tokens before t behind) (more : List MarkupToken) :
    ScriptIn (tokens ++ more) before t (behind ++ more) :=
  ⟨by rw [h.tokens_eq, List.append_assoc, List.cons_append], h.isScript⟩

end Markup

end ScriptTidy
