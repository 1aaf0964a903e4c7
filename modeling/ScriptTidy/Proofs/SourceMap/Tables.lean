import ScriptTidy.Proofs.SourceMap.RoundTrip

/-!
# The tables of a source map

A map lists the sources and the names that its mappings point to, and next to the sources their
contents. Mappings and contents are added in any order and the root may change in between. What
the tables hold afterwards is said here of the calls that were made, without the map: `FirstUses`
lists what was used by its first uses, and `lastContent?` is what was set last.

A value is written as its place in its table. The place that is searched for is the one that can
be kept from the first use on, as an `IndexedTable` does.

* `IndexedTable.sound_of` : the places that are kept are those at which the values stand.
* `Exact.change` : what one call preserves.
* `exact_changed` : what any calls lead to.
* `indexIn_changed` : the places that are kept of all that the calls used are those written.
* `tables_changed` : the same for the map as it is written.
-/

namespace ScriptTidy

/-! ## Lists in order of first use -/

/-- What is used is listed: each value once, in the order of the first uses. -/
structure FirstUses (uses listed : List Bytes) : Prop where
  nodup : listed.Nodup
  mem_iff : ∀ x, x ∈ listed ↔ x ∈ uses
  ordered : listed.Pairwise fun x y => uses.idxOf x < uses.idxOf y

theorem firstUses_nil : FirstUses [] [] := ⟨.nil, fun _ => Iff.rfl, .nil⟩

section Uses

variable {uses listed : List Bytes} {x : Bytes}

/-- What is listed already keeps the place of its first use. -/
theorem FirstUses.ordered_append (h : FirstUses uses listed) (more : List Bytes) :
    listed.Pairwise fun y z => (uses ++ more).idxOf y < (uses ++ more).idxOf z := by
  refine h.ordered.imp_of_mem fun {y z} hy hz hlt => ?_
  rw [List.idxOf_append_of_mem ((h.mem_iff y).mp hy),
    List.idxOf_append_of_mem ((h.mem_iff z).mp hz)]
  exact hlt

/-- A value that is listed may be used again. -/
theorem FirstUses.again (h : FirstUses uses listed) (hx : x ∈ listed) :
    FirstUses (uses ++ [x]) listed where
  nodup := h.nodup
  mem_iff y := by
    have huses := (h.mem_iff x).mp hx
    rw [h.mem_iff, List.mem_append, List.mem_singleton]
    exact ⟨.inl, fun hy => hy.elim id fun he => he ▸ huses⟩
  ordered := h.ordered_append [x]

/-- A value that was not used before comes last. -/
theorem FirstUses.concat (h : FirstUses uses listed) (hx : x ∉ listed) :
    FirstUses (uses ++ [x]) (listed ++ [x]) where
  nodup := List.nodup_append.mpr ⟨h.nodup, List.nodup_singleton x, fun _ hy _ hz hyz =>
    hx (List.mem_singleton.mp hz ▸ hyz ▸ hy)⟩
  mem_iff y := by
    rw [List.mem_append, List.mem_append, h.mem_iff]
  ordered := by
    refine List.pairwise_append.mpr ⟨h.ordered_append [x], List.pairwise_singleton _ x,
      fun y hy z hz => ?_⟩
    have hused : y ∈ uses := (h.mem_iff y).mp hy
    have hnew : x ∉ uses := fun hmem => hx ((h.mem_iff x).mpr hmem)
    rw [List.mem_singleton.mp hz, List.idxOf_append_of_mem hused,
      List.idxOf_append_of_notMem hnew]
    exact Nat.lt_of_lt_of_le (List.idxOf_lt_length_iff.mpr hused) (Nat.le_add_right _ _)

/-- **A use lists its value if it is new.** -/
theorem FirstUses.use (h : FirstUses uses listed) (x? : Option Bytes) :
    FirstUses (uses ++ x?.toList) (x?.elim listed (addOnce · listed)) := by
  cases x? with
  | none => rwa [Option.toList_none, List.append_nil]
  | some x =>
    show FirstUses (uses ++ [x]) (addOnce x listed)
    unfold addOnce
    split
    next hx => exact h.again (List.contains_iff_mem.mp hx)
    next hx => exact h.concat fun hmem => hx (List.contains_iff_mem.mpr hmem)

end Uses

/-! ## Places without a search -/

/-- A table that keeps the places of its values. -/
structure IndexedTable where
  listed : List Bytes := []
  place : Bytes → Option Nat := fun _ => none

namespace IndexedTable

/-- Lists a value behind the others and keeps its place, if it has none yet. -/
def use (t : IndexedTable) (x : Bytes) : IndexedTable :=
  match t.place x with
  | some _ => t
  | none =>
    { listed := t.listed ++ [x]
      place := fun y => if y = x then some t.listed.length else t.place y }

/-- The table behind uses of values. -/
def of (uses : List Bytes) : IndexedTable := uses.foldl use {}

/-- The places are those at which the values stand. -/
def Sound (t : IndexedTable) : Prop := ∀ x i, t.place x = some i ↔ t.listed[i]? = some x

variable {t : IndexedTable} (h : t.Sound)

include h

theorem Sound.mem_of_place {x : Bytes} {i : Nat} (hx : t.place x = some i) : x ∈ t.listed :=
  List.mem_of_getElem? ((h x i).mp hx)

theorem Sound.notMem_of_place {x : Bytes} (hx : t.place x = none) : x ∉ t.listed := by
  intro hmem
  obtain ⟨i, hi⟩ := List.getElem?_of_mem hmem
  rw [(h x i).mpr hi] at hx
  cases hx

/-- **A use keeps the places right.** -/
theorem Sound.use (x : Bytes) : (t.use x).Sound := by
  unfold IndexedTable.use
  cases hx : t.place x with
  | some i => exact h
  | none =>
    intro y i
    dsimp only
    by_cases hlast : i = t.listed.length
    · -- at the last place stands the value that is new
      rw [hlast, List.getElem?_concat_length, Option.some.injEq]
      by_cases hy : y = x
      · rw [if_pos hy]
        exact ⟨fun _ => hy.symm, fun _ => rfl⟩
      · rw [if_neg hy, h, List.getElem?_eq_none (Nat.le_refl _)]
        simp [Ne.symm hy]
    · have hplace : (t.listed ++ [x])[i]? = t.listed[i]? := by
        rcases Nat.lt_or_gt_of_ne hlast with hi | hi
        · exact List.getElem?_append_left hi
        · rw [List.getElem?_eq_none (by simp; omega), List.getElem?_eq_none (by omega)]
      rw [hplace]
      by_cases hy : y = x
      · rw [if_pos hy, hy, Option.some.injEq, ← h, hx]
        simp [Ne.symm hlast]
      · rw [if_neg hy]
        exact h y i

theorem Sound.listed_use (x : Bytes) : (t.use x).listed = addOnce x t.listed := by
  unfold IndexedTable.use addOnce
  cases hx : t.place x with
  | some i => rw [if_pos (List.contains_iff_mem.mpr (h.mem_of_place hx))]
  | none =>
    rw [if_neg fun hmem => h.notMem_of_place hx (List.contains_iff_mem.mp hmem)]

omit h

theorem of_concat (uses : List Bytes) (x : Bytes) : of (uses ++ [x]) = (of uses).use x :=
  List.foldl_concat use {} x uses

/-- **The places that are kept are those at which the values stand**, whatever was used. -/
theorem sound_of (uses : List Bytes) : (of uses).Sound := by
  induction uses using List.reverseRecOn with
  | nil =>
    intro x i
    constructor <;> intro hi <;> cases hi
  | append_singleton uses x ih =>
    rw [of_concat]
    exact ih.use x

end IndexedTable

namespace SourceMap

/-- A value that has a place is found there, and one that has none is taken for the first. -/
theorem indexIn_listed {t : IndexedTable} (h : t.Sound) (x : Bytes) :
    indexIn t.listed x = ((t.place x).getD 0 : Nat) := by
  unfold indexIn
  dsimp only
  cases hx : t.place x with
  | none =>
    rw [if_neg fun hlt => h.notMem_of_place hx (List.idxOf_lt_length_iff.mp hlt)]
    rfl
  | some i =>
    have hmem : x ∈ t.listed := h.mem_of_place hx
    have hfound : t.place x = some (t.listed.idxOf x) :=
      (h x _).mpr (List.getElem?_idxOf hmem)
    rw [if_pos (List.idxOf_lt_length_iff.mpr hmem), Option.some.inj (hx.symm.trans hfound)]
    rfl

/-! ## Calls and what they use -/

/-- A call that changes a map: it adds something to it, or sets the root. -/
inductive Change
  | call (c : Call)
  | root (text : Bytes)
deriving DecidableEq, Repr

/-- The map after a change. -/
def change (s : SourceMap) : Change → SourceMap
  | .call c => s.call c
  | .root text => s.setRoot text

/-- The map of the file after changes. -/
def changed (file : Bytes) (changes : List Change) : SourceMap := changes.foldl change { file }

/-- The source that a call uses. A mapping without an original place uses none. -/
def Change.source? : Change → Option Bytes
  | .call (.mapping m) => if 0 < m.original.line then some m.source else none
  | .call (.content source _) => some source
  | .root _ => none

/-- The name that a call uses. The empty name stands for none. -/
def Change.name? : Change → Option Bytes
  | .call (.mapping m) => if 0 < m.original.line ∧ m.name ≠ [] then some m.name else none
  | _ => none

/-- The content that a call sets for the source. -/
def Change.content? (source : Bytes) : Change → Option Bytes
  | .call (.content s text) => if s = source then some text else none
  | _ => none

/-- Whether a call sets a content. -/
def Change.setsContent : Change → Bool
  | .call (.content _ _) => true
  | _ => false

/-- The content that was set last for the source. -/
def lastContent? (changes : List Change) (source : Bytes) : Option Bytes :=
  (changes.filterMap (·.content? source)).getLast?

section Change

variable (s : SourceMap) (c : Change)

/-- A mapping uses its source and its name, and leaves the contents alone. -/
theorem add_eq (m : Mapping) : s.add m = { s with
    mappings := s.mappings.push m
    sources := (Change.source? (.call (.mapping m))).elim s.sources (addOnce · s.sources)
    names := (Change.name? (.call (.mapping m))).elim s.names (addOnce · s.names) } := by
  unfold add Mapping.hasOriginal Change.source? Change.name?
  dsimp only
  by_cases horiginal : 0 < m.original.line
  · by_cases hname : m.name = []
    · simp [horiginal, hname]
    · simp [horiginal, hname]
  · simp [horiginal]

theorem sources_change : (s.change c).sources = c.source?.elim s.sources (addOnce · s.sources) := by
  match c with
  | .call (.mapping m) => exact congrArg sources (s.add_eq m)
  | .call (.content source text) => rfl
  | .root text => rfl

theorem names_change : (s.change c).names = c.name?.elim s.names (addOnce · s.names) := by
  match c with
  | .call (.mapping m) => exact congrArg names (s.add_eq m)
  | .call (.content source text) => rfl
  | .root text => rfl

/-- A content hides the one that was set before it for its source. -/
theorem content?_change (source : Bytes) :
    (s.change c).content? source = (c.content? source).or (s.content? source) := by
  match c with
  | .call (.mapping m) =>
    show (s.add m).content? source = s.content? source
    rw [add_eq]
    rfl
  | .call (.content other text) =>
    show List.lookup source ((other, text) :: s.contents)
      = (if other = source then some text else none).or (s.content? source)
    by_cases h : other = source
    · rw [if_pos h, h, List.lookup_cons_self]
      rfl
    · rw [if_neg h, List.lookup_cons, beq_false_of_ne (Ne.symm h)]
      rfl
  | .root text => rfl

theorem isEmpty_contents_change :
    (s.change c).contents.isEmpty = (!c.setsContent && s.contents.isEmpty) := by
  match c with
  | .call (.mapping m) => exact congrArg (·.contents.isEmpty) (s.add_eq m)
  | .call (.content source text) => rfl
  | .root text => rfl

end Change

/-! ## The tables behind the calls -/

/-- The tables hold what the calls used and set. -/
structure Exact (changes : List Change) (s : SourceMap) : Prop where
  sources : FirstUses (changes.filterMap (·.source?)) s.sources
  names : FirstUses (changes.filterMap (·.name?)) s.names
  content : ∀ source, s.content? source = lastContent? changes source
  contents : s.contents.isEmpty = !changes.any (·.setsContent)

theorem filterMap_concat {f : Change → Option Bytes} (changes : List Change) (c : Change) :
    (changes ++ [c]).filterMap f = changes.filterMap f ++ (f c).toList := by
  rw [List.filterMap_append]
  cases h : f c with
  | none => rw [List.filterMap_cons_none h]; rfl
  | some x => rw [List.filterMap_cons_some h]; rfl

/-- **A call keeps the tables exact.** -/
theorem Exact.change {changes : List Change} {s : SourceMap} (h : Exact changes s) (c : Change) :
    Exact (changes ++ [c]) (s.change c) where
  sources := by
    rw [sources_change, filterMap_concat]
    exact h.sources.use c.source?
  names := by
    rw [names_change, filterMap_concat]
    exact h.names.use c.name?
  content source := by
    rw [content?_change, h.content, lastContent?, lastContent?, filterMap_concat,
      List.getLast?_append]
    cases c.content? source <;> rfl
  contents := by
    rw [isEmpty_contents_change, h.contents, List.any_append, List.any_cons, List.any_nil,
      Bool.or_false, Bool.not_or, Bool.and_comm]

theorem changed_concat (file : Bytes) (changes : List Change) (c : Change) :
    changed file (changes ++ [c]) = (changed file changes).change c :=
  List.foldl_concat change { file } c changes

/-- **Any calls lead to exact tables**, by induction on the calls, the last one first. -/
theorem exact_changed (file : Bytes) (changes : List Change) :
    Exact changes (changed file changes) := by
  induction changes using List.reverseRecOn with
  | nil => exact ⟨firstUses_nil, firstUses_nil, fun _ => rfl, rfl⟩
  | append_singleton changes c ih =>
    rw [changed_concat]
    exact ih.change c

/-- What is used is listed as in a table that keeps the places. -/
theorem listed_of_use (uses : List Bytes) (x? : Option Bytes) :
    (IndexedTable.of (uses ++ x?.toList)).listed =
      x?.elim (IndexedTable.of uses).listed (addOnce · (IndexedTable.of uses).listed) := by
  cases x? with
  | none => rw [Option.toList_none, List.append_nil]; rfl
  | some x =>
    rw [Option.toList_some, IndexedTable.of_concat]
    exact (IndexedTable.sound_of uses).listed_use x

/-- Any calls list the sources and the names as tables that keep the places. -/
theorem listed_changed (file : Bytes) (changes : List Change) :
    (changed file changes).sources = (IndexedTable.of (changes.filterMap (·.source?))).listed
      ∧ (changed file changes).names = (IndexedTable.of (changes.filterMap (·.name?))).listed := by
  induction changes using List.reverseRecOn with
  | nil => exact ⟨rfl, rfl⟩
  | append_singleton changes c ih =>
    rw [changed_concat, sources_change, names_change, filterMap_concat, filterMap_concat,
      listed_of_use, listed_of_use, ih.1, ih.2]
    exact ⟨rfl, rfl⟩

/-- **A source and a name are written as the places that can be kept of them**, whatever calls were
made. -/
theorem indexIn_changed (file : Bytes) (changes : List Change) (x : Bytes) :
    indexIn (changed file changes).sources x =
        (((IndexedTable.of (changes.filterMap (·.source?))).place x).getD 0 : Nat)
      ∧ indexIn (changed file changes).names x =
        (((IndexedTable.of (changes.filterMap (·.name?))).place x).getD 0 : Nat) := by
  rw [(listed_changed file changes).1, (listed_changed file changes).2]
  exact ⟨indexIn_listed (IndexedTable.sound_of _) x, indexIn_listed (IndexedTable.sound_of _) x⟩

/-- A source that has a content is listed. -/
theorem Exact.sources_ne_nil {changes : List Change} {s : SourceMap} (h : Exact changes s)
    (hset : changes.any (·.setsContent) = true) : s.sources ≠ [] := by
  obtain ⟨c, hc, hcontent⟩ := List.any_eq_true.mp hset
  match c with
  | .call (.content source text) =>
    have hused : source ∈ changes.filterMap (·.source?) := List.mem_filterMap.mpr ⟨_, hc, rfl⟩
    exact List.ne_nil_of_mem ((h.sources.mem_iff source).mpr hused)

theorem Exact.sourcesContent_eq {changes : List Change} {s : SourceMap} (h : Exact changes s) :
    s.sourcesContent =
      if changes.any (·.setsContent) then s.sources.map (lastContent? changes) else [] := by
  unfold sourcesContent
  rw [h.contents, List.map_congr_left fun source _ => h.content source]
  cases changes.any (·.setsContent) <;> rfl

/-! ## The map as it is written -/

/-- A field of the written map, nothing if it is left out. -/
def field? (s : SourceMap) (key : String) : Option JsonValue :=
  match s.toJson with
  | .obj fields => fields.lookup (utf8 key)
  | _ => none

/-- The content of a source as it is written. -/
def contentJson : Option Bytes → JsonValue
  | some text => .str text
  | none => .null

section Written

variable (s : SourceMap)

theorem field?_sources : s.field? "sources" = some (.arr (s.sources.map .str)) := by
  unfold field? toJson
  dsimp only
  cases s.file.isEmpty <;> cases s.sourceRoot.isEmpty <;> rfl

theorem field?_names : s.field? "names" = some (.arr (s.names.map .str)) := by
  unfold field? toJson
  dsimp only
  cases s.file.isEmpty <;> cases s.sourceRoot.isEmpty <;> rfl

theorem field?_sourcesContent : s.field? "sourcesContent" =
    if s.sourcesContent.isEmpty then none
    else some (.arr (s.sourcesContent.map contentJson)) := by
  unfold field? toJson
  dsimp only
  cases s.file.isEmpty <;> cases s.sourceRoot.isEmpty <;> cases s.sourcesContent.isEmpty <;> rfl

end Written

/-- **The tables of a map are exact**, whatever calls were made, and so is what is written of them.
Sources and names are listed by their first uses. The contents are left out if none was set, and
else there is one for each source: what was set last for it, or nothing. -/
theorem tables_changed (file : Bytes) (changes : List Change) :
    FirstUses (changes.filterMap (·.source?)) (changed file changes).sources
      ∧ FirstUses (changes.filterMap (·.name?)) (changed file changes).names
      ∧ (changed file changes).sourcesContent =
        (if changes.any (·.setsContent) then
          (changed file changes).sources.map (lastContent? changes)
        else [])
      ∧ (changed file changes).field? "sources" =
        some (.arr ((changed file changes).sources.map .str))
      ∧ (changed file changes).field? "names" = some (.arr ((changed file changes).names.map .str))
      ∧ (changed file changes).field? "sourcesContent" =
        if changes.any (·.setsContent) then
          some (.arr ((changed file changes).sources.map
            fun source => contentJson (lastContent? changes source)))
        else none := by
  have h := exact_changed file changes
  refine ⟨h.sources, h.names, h.sourcesContent_eq, field?_sources _, field?_names _, ?_⟩
  rw [field?_sourcesContent, h.sourcesContent_eq]
  cases hset : changes.any (·.setsContent) with
  | false => rfl
  | true =>
    have hne : ((changed file changes).sources.map (lastContent? changes)).isEmpty = false := by
      rw [List.isEmpty_map, List.isEmpty_eq_false_iff]
      exact h.sources_ne_nil hset
    rw [if_pos rfl, if_pos rfl, hne, List.map_map]
    rfl

/-- The second content replaces the first, and the source between them has none. -/
example : (changed [] [.call (.content [0x62] [0x78]), .root [0x2F],
    .call (.mapping ⟨⟨1, 0⟩, ⟨1, 0⟩, [0x61], []⟩), .call (.content [0x62] [0x79])]).sourcesContent
      = [some [0x79], none] := by decide

end SourceMap

end ScriptTidy
