import ScriptTidy.Proofs.Scanner.Cover

/-!
# Texts that are kept as they stand

Numbers, regular expressions, template chunks and comments are not decoded: their values are
pieces of the source. So nothing can be in them that the source does not hold, whatever the
scanner made of it. Names and strings, which are decoded, are left out.

* `tokenize_verbatim` : the values of such tokens lie in the source.
-/

namespace ScriptTidy

/-- The kinds whose values are kept as they stand in the source. -/
def Kind.isVerbatim : Kind → Bool
  | .num | .regexp | .template | .lineComment | .blockComment | .hashbang => true
  | _ => false

/-- A value that is kept as it stands is a piece of the text of its token. -/
theorem Kind.WrittenAs.infix_of_isVerbatim {kind : Kind} {value text : Bytes}
    (h : kind.WrittenAs value text) (hkind : kind.isVerbatim = true) : value <:+: text := by
  cases kind with
  | num | regexp | template =>
    obtain rfl : text = value := h
    exact List.infix_rfl
  | lineComment | hashbang =>
    rw [show text = _ ++ value from h]
    exact (List.suffix_append _ value).isInfix
  | blockComment =>
    rw [show text = utf8 "/*" ++ value ++ utf8 "*/" from h]
    exact List.infix_append _ value _
  | string | name | keyword | privateName | punct | eof => cases hkind

namespace Scanner

open Cursor

/-- What was taken off a source lies in it. -/
theorem Taken.exists_infix {source : Bytes} {c d : Cursor} {t : Token} (h : Taken c t d)
    (hc : (Cursor.ofSource source).Reaches c) :
    ∃ text, text <:+: source ∧ t.kind.WrittenAs t.value text := by
  obtain ⟨gs, hgs, hwritten⟩ := h.written
  obtain ⟨before, after, hglyphs, -⟩ := standsAt_of_reads hc hgs
  refine ⟨_, ?_, hwritten⟩
  rw [← Utf8.bytes_glyphs source, hglyphs, List.flatMap_append, List.flatMap_append]
  exact List.infix_append _ _ _

/-- **What is kept as it stands lies in the source.** -/
theorem tokenize_verbatim {source : Bytes} {toks : List Token} (h : tokenize source = .ok toks)
    {t : Token} (ht : t ∈ toks) (hkind : t.kind.isVerbatim = true) : t.value <:+: source := by
  obtain ⟨us, d, e, hus, hends, rfl⟩ := tokenize_passes h
  rcases List.mem_append.mp ht with ht | ht
  · obtain ⟨x, y, hx, htaken⟩ := hus.taken t ht
    obtain ⟨text, htext, hwritten⟩ :=
      htaken.exists_infix ((ofSource_within source).reaches.trans hx)
    exact (hwritten.infix_of_isVerbatim hkind).trans htext
  · rw [List.mem_singleton.mp ht, hends.token] at hkind
    cases hkind

end Scanner

end ScriptTidy
