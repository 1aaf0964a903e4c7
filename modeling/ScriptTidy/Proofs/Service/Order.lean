import ScriptTidy.Proofs.Json.RoundTrip
import ScriptTidy.Proofs.Scanner.Spelling
import ScriptTidy.Service.Order

/-!
# Orders and their canonical forms

The canonical form of an order that can be read says all that the order says.

* `proper_of_read` : an order that is read has texts of characters and integers that fit the word.
* `read_encode` : the canonical form of such an order is read as that order.
* `encode_injective` : canonical forms are equal only if the orders are.
-/

namespace ScriptTidy.Service.Order

open JsonValue (Legible)
open Utf8 (IsText)

/-! ## Orders as they are read -/

/-- An order whose texts consist of characters and whose integers fit the word. -/
structure Proper (o : Order) : Prop where
  source : IsText o.source
  url : IsText o.url
  indent : IsText o.indent
  originalStartLine : FitsWord o.originalStartLine
  originalStartColumn : FitsWord o.originalStartColumn
  generatedStartLine : FitsWord o.generatedStartLine

theorem proper_empty : Proper {} := by
  constructor
  all_goals first | exact JsonValue.isText_nil | exact ⟨by decide, by decide⟩

theorem fitsWord_of_integer? {text : Bytes} {i : Int} (h : integer? text = some i) :
    FitsWord i := by
  unfold integer? at h
  cases hread : readInteger text with
  | error f =>
    rw [hread] at h
    cases h
  | ok j =>
    rw [hread] at h
    cases h
    exact readInteger_fits hread

theorem Proper.set? {o p : Order} {s : Setting} {v : JsonValue} (h : o.Proper)
    (hv : ∀ t, v = .str t → IsText t) (hp : o.set? s v = some p) : p.Proper := by
  unfold Order.set? at hp
  split at hp
  · cases hp
    exact { h with source := hv _ rfl }
  · cases hp
    exact { h with url := hv _ rfl }
  · cases hp
    exact { h with indent := hv _ rfl }
  · cases hp
    exact { h with }
  · obtain ⟨i, hi, rfl⟩ := Option.map_eq_some_iff.mp hp
    exact { h with originalStartLine := fitsWord_of_integer? hi }
  · obtain ⟨i, hi, rfl⟩ := Option.map_eq_some_iff.mp hp
    exact { h with originalStartColumn := fitsWord_of_integer? hi }
  · obtain ⟨i, hi, rfl⟩ := Option.map_eq_some_iff.mp hp
    exact { h with generatedStartLine := fitsWord_of_integer? hi }
  · cases hp
    exact h
  · cases hp

theorem Proper.addField {st : Order × Option Bytes} {f : Bytes × JsonValue} (h : st.1.Proper)
    (hf : ∀ t, f.2 = .str t → IsText t) : (addField st f).1.Proper := by
  unfold Order.addField
  split
  · exact h
  · split
    next hp => exact h.set? hf hp
    next => exact h

theorem Proper.foldl_addField {st : Order × Option Bytes} {fs : List (Bytes × JsonValue)}
    (h : st.1.Proper) (hfs : ∀ k t, (k, .str t) ∈ fs → IsText t) :
    (fs.foldl Order.addField st).1.Proper := by
  induction fs generalizing st with
  | nil => exact h
  | cons f fs ih =>
    obtain ⟨k, v⟩ := f
    refine ih (h.addField fun t ht => hfs k t ?_) fun k t hmem =>
      hfs k t (List.mem_cons_of_mem _ hmem)
    rw [← ht]
    exact List.mem_cons_self

/-- **What is read is proper.** -/
theorem proper_of_read {text : Bytes} {o : Order} (h : read text = .ok o) : o.Proper := by
  unfold read at h
  split at h
  · cases h
  next v hv =>
  unfold ofJson at h
  split at h
  · cases h
    exact proper_empty
  next fs =>
    have hproper : (fs.foldl addField ({}, none)).1.Proper :=
      proper_empty.foldl_addField fun k t hmem => JsonValue.isText_of_read hv hmem
    split at h
    next hfold =>
      cases h
      rwa [hfold] at hproper
    next => cases h
  · cases h

/-! ## Canonical forms -/

theorem ofName?_label (s : Setting) : Setting.ofName? (utf8 s.label) = some s := by
  cases s <;> decide +kernel

theorem ofName?_check : Setting.ofName? (utf8 "check") = none := by
  decide +kernel

/-- The order with a setting taken over from another one. -/
def takeOver (p o : Order) : Setting → Order
  | .source => { p with source := o.source }
  | .url => { p with url := o.url }
  | .indent => { p with indent := o.indent }
  | .html => { p with html := o.html }
  | .originalStartLine => { p with originalStartLine := o.originalStartLine }
  | .originalStartColumn => { p with originalStartColumn := o.originalStartColumn }
  | .generatedStartLine => { p with generatedStartLine := o.generatedStartLine }

theorem integer?_intDecimal {i : Int} (h : FitsWord i) : integer? (intDecimal i) = some i := by
  rw [integer?, readInteger_intDecimal h]
  rfl

theorem set?_valueOf {o : Order} (h : o.Proper) (p : Order) (s : Setting) :
    p.set? s (o.valueOf s) = some (p.takeOver o s) := by
  cases s
  case originalStartLine => exact congrArg (Option.map _) (integer?_intDecimal h.originalStartLine)
  case originalStartColumn =>
    exact congrArg (Option.map _) (integer?_intDecimal h.originalStartColumn)
  case generatedStartLine =>
    exact congrArg (Option.map _) (integer?_intDecimal h.generatedStartLine)
  all_goals rfl

theorem addField_valueOf {o : Order} (h : o.Proper) (p : Order) (s : Setting) :
    addField (p, none) (utf8 s.label, o.valueOf s) = (p.takeOver o s, none) := by
  simp only [addField, ofName?_label, set?_valueOf h]

theorem foldl_addField_valueOf {o : Order} (h : o.Proper) (p : Order) (ss : List Setting) :
    (ss.map fun s => (utf8 s.label, o.valueOf s)).foldl addField (p, none) =
      (ss.foldl (fun p s => p.takeOver o s) p, none) := by
  induction ss generalizing p with
  | nil => rfl
  | cons s ss ih => rw [List.map_cons, List.foldl_cons, addField_valueOf h, ih, List.foldl_cons]

theorem takeOver_of_leavesOut {o p : Order} {s : Setting} (ho : o.leavesOut s = true)
    (hp : p.leavesOut s = true) : p.takeOver o s = p := by
  obtain ⟨_, _, _, _, _, _, _⟩ := p
  cases s <;> simp_all [leavesOut, takeOver]

theorem leavesOut_takeOver (p o : Order) {s t : Setting} (h : t ≠ s) :
    (p.takeOver o s).leavesOut t = p.leavesOut t := by
  cases s <;> cases t <;> first | rfl | exact absurd rfl h

/-- Settings that are left out need not be taken over by an order that has none of them. -/
theorem foldl_takeOver_filter (o p : Order) {ss : List Setting} (hss : ss.Nodup)
    (hp : ∀ s ∈ ss, o.leavesOut s = true → p.leavesOut s = true) :
    (ss.filter fun s => !o.leavesOut s).foldl (fun p s => p.takeOver o s) p =
      ss.foldl (fun p s => p.takeOver o s) p := by
  induction ss generalizing p with
  | nil => rfl
  | cons s ss ih =>
    obtain ⟨hs, hss⟩ := List.nodup_cons.mp hss
    rw [List.foldl_cons]
    by_cases hout : o.leavesOut s = true
    · rw [List.filter_cons_of_neg (by simp [hout]),
        takeOver_of_leavesOut hout (hp s List.mem_cons_self hout)]
      exact ih p hss fun t ht => hp t (List.mem_cons_of_mem s ht)
    · rw [List.filter_cons_of_pos (by simp [hout]), List.foldl_cons]
      refine ih _ hss fun t ht hto => ?_
      rw [leavesOut_takeOver p o (fun (hts : t = s) => hs (hts ▸ ht))]
      exact hp t (List.mem_cons_of_mem s ht) hto

/-- **The fields of the canonical form make up the order.** -/
theorem foldl_addField_fields {o : Order} (h : o.Proper) :
    o.fields.foldl addField ({}, none) = (o, none) := by
  have hempty : ∀ s ∈ Setting.all, o.leavesOut s = true → leavesOut {} s = true := by
    intro s _ hs
    cases s <;> first | rfl | cases hs
  rw [fields, foldl_addField_valueOf h, foldl_takeOver_filter o {} (by decide) hempty]
  rfl

theorem ofJson_fields {o : Order} (h : o.Proper) (check : Bool) :
    ofJson (.obj (o.fields ++ [JsonValue.field "check" (.bool check)])) = .ok o := by
  have hcheck : addField (o, none) (JsonValue.field "check" (.bool check)) = (o, none) := by
    simp only [addField, JsonValue.field, ofName?_check]
  rw [ofJson, List.foldl_append, foldl_addField_fields h, List.foldl_cons, hcheck]
  rfl

theorem isText_utf8 {s : String} (h : s.toList.all (·.toNat < 0x80) = true) :
    IsText (utf8 s) := ⟨s.toList, Scanner.utf8_eq_encodeChars h⟩

theorem legible_valueOf {o : Order} (h : o.Proper) (d : Nat) (s : Setting) :
    Legible d (o.valueOf s) := by
  cases s
  · exact .str h.source
  · exact .str h.url
  · exact .str h.indent
  · exact .bool _
  all_goals exact .int _

theorem legible_fields {o : Order} (h : o.Proper) (d : Nat) (check : Bool) :
    Legible (d + 1) (.obj (o.fields ++ [JsonValue.field "check" (.bool check)])) := by
  have hfields : ∀ f ∈ o.fields ++ [JsonValue.field "check" (.bool check)],
      IsText f.1 ∧ Legible d f.2 := by
    intro f hf
    rcases List.mem_append.mp hf with hf | hf
    · obtain ⟨s, -, rfl⟩ := List.mem_map.mp hf
      exact ⟨isText_utf8 (by cases s <;> decide), legible_valueOf h d s⟩
    · rw [List.mem_singleton.mp hf]
      exact ⟨isText_utf8 (by decide), .bool check⟩
  exact .obj (fun f hf => (hfields f hf).1) fun f hf => (hfields f hf).2

theorem readJson_encode {o : Order} (h : o.Proper) (check : Bool) :
    JsonValue.read (o.encode check) =
      .ok (.obj (o.fields ++ [JsonValue.field "check" (.bool check)])) :=
  JsonValue.read_render (legible_fields h 9999 check)

/-- **The canonical form of an order is read as that order.** -/
theorem read_encode {o : Order} (h : o.Proper) (check : Bool) :
    read (o.encode check) = .ok o := by
  rw [read, readJson_encode h]
  exact ofJson_fields h check

/-- **Orders with the same canonical form are the same.** -/
theorem encode_injective {o p : Order} (ho : o.Proper) (hp : p.Proper) {b c : Bool}
    (h : o.encode b = p.encode c) : o = p ∧ b = c := by
  have hread := readJson_encode ho b
  rw [h, readJson_encode hp] at hread
  have hfields := JsonValue.obj.inj (Except.ok.inj hread)
  have hlast := List.append_inj_right' hfields rfl
  have horder := read_encode ho b
  rw [h, read_encode hp] at horder
  refine ⟨(Except.ok.inj horder).symm, ?_⟩
  cases hlast
  rfl

end ScriptTidy.Service.Order
