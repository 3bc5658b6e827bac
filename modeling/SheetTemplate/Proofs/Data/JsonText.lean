import SheetTemplate.Data.Json
import SheetTemplate.Proofs.Json.RoundTrip
/-!
Data trees and their JSON texts. A tree without floating numbers and dates is read back from the
text that it shows; any tree comes back from its JSON tree with texts in place of its dates and
nothing in place of the numbers that JSON cannot hold.
-/
namespace SheetTemplate.Data

/-- A tree of the kinds of values that JSON texts keep: no floating numbers and no dates. -/
inductive Plain : Data → Prop
  | null : Plain null
  | bool (b : Bool) : Plain (bool b)
  | int (i : Int64) : Plain (int i)
  | text (s : String) : Plain (text s)
  | list {items : List Data} : (∀ v ∈ items, Plain v) → Plain (list items)
  | record {fields : List (String × Data)} : (∀ f ∈ fields, Plain f.2) → Plain (record fields)

mutual

/-- The most containers inside each other, the tree itself included. -/
def nesting : Data → Nat
  | list items => nestingItems items + 1
  | record fields => nestingFields fields + 1
  | _ => 0

def nestingItems : List Data → Nat
  | [] => 0
  | v :: rest => max (nesting v) (nestingItems rest)

def nestingFields : List (String × Data) → Nat
  | [] => 0
  | (_, v) :: rest => max (nesting v) (nestingFields rest)

end

mutual

/-- The value as far as a JSON tree can hold it: a date is the text that it shows, and a number
that is not finite is nothing. -/
def portable : Data → Data
  | date d => text d.render
  | float x => if x.isFinite then float x else null
  | list items => list (portableItems items)
  | record fields => record (portableFields fields)
  | v => v

def portableItems : List Data → List Data
  | [] => []
  | v :: rest => portable v :: portableItems rest

def portableFields : List (String × Data) → List (String × Data)
  | [] => []
  | (k, v) :: rest => (k, portable v) :: portableFields rest

end

/-! ## JSON trees -/

mutual

theorem ofJson_toJson : ∀ v : Data, ofJson v.toJson = v.portable
  | null => rfl
  | bool _ => rfl
  | int _ => rfl
  | float x => by
    rw [toJson, portable]
    split <;> rfl
  | text _ => rfl
  | date _ => rfl
  | list items => by rw [toJson, ofJson, portable, ofJsonItems_toJsonItems items]
  | record fields => by rw [toJson, ofJson, portable, ofJsonFields_toJsonFields fields]

theorem ofJsonItems_toJsonItems :
    ∀ items : List Data, ofJsonItems (toJsonItems items) = portableItems items
  | [] => rfl
  | v :: rest => by
    rw [toJsonItems, ofJsonItems, portableItems, ofJson_toJson v, ofJsonItems_toJsonItems rest]

theorem ofJsonFields_toJsonFields :
    ∀ fields : List (String × Data), ofJsonFields (toJsonFields fields) = portableFields fields
  | [] => rfl
  | (k, v) :: rest => by
    rw [toJsonFields, ofJsonFields, portableFields, ofJson_toJson v,
      ofJsonFields_toJsonFields rest]

end

private theorem portableItems_eq_map (items : List Data) :
    portableItems items = items.map portable := by
  induction items with
  | nil => rfl
  | cons v rest ih => rw [portableItems, ih, List.map_cons]

private theorem portableFields_eq_map (fields : List (String × Data)) :
    portableFields fields = fields.map fun f => (f.1, portable f.2) := by
  induction fields with
  | nil => rfl
  | cons f rest ih => rw [portableFields, ih, List.map_cons]

private theorem toJsonItems_eq_map (items : List Data) : toJsonItems items = items.map toJson := by
  induction items with
  | nil => rfl
  | cons v rest ih => rw [toJsonItems, ih, List.map_cons]

private theorem toJsonFields_eq_map (fields : List (String × Data)) :
    toJsonFields fields = fields.map fun f => (f.1, toJson f.2) := by
  induction fields with
  | nil => rfl
  | cons f rest ih => rw [toJsonFields, ih, List.map_cons]

/-- Nothing in a plain tree is changed by JSON. -/
theorem Plain.portable_eq {v : Data} (h : v.Plain) : v.portable = v := by
  induction h with
  | null => rfl
  | bool b => rfl
  | int i => rfl
  | text s => rfl
  | list _ ih =>
    rw [portable, portableItems_eq_map, List.map_congr_left ih, List.map_id']
  | @record fields _ ih =>
    have hfields : ∀ f ∈ fields, (f.1, portable f.2) = f := fun f hf => by rw [ih f hf]
    rw [portable, portableFields_eq_map, List.map_congr_left hfields, List.map_id']

/-! ## JSON texts -/

private theorem nesting_le_nestingItems {v : Data} {items : List Data} (h : v ∈ items) :
    nesting v ≤ nestingItems items := by
  induction items with
  | nil => cases h
  | cons w rest ih =>
    rw [nestingItems]
    rcases List.mem_cons.1 h with rfl | h
    · exact Nat.le_max_left ..
    · exact Nat.le_trans (ih h) (Nat.le_max_right ..)

private theorem nesting_le_nestingFields {f : String × Data} {fields : List (String × Data)}
    (h : f ∈ fields) : nesting f.2 ≤ nestingFields fields := by
  induction fields with
  | nil => cases h
  | cons g rest ih =>
    rw [nestingFields]
    rcases List.mem_cons.1 h with rfl | h
    · exact Nat.le_max_left ..
    · exact Nat.le_trans (ih h) (Nat.le_max_right ..)

/-- The JSON tree of a plain tree is one that its text determines. -/
theorem Plain.canonical_toJson {v : Data} (hplain : v.Plain) (hordered : v.Ordered) {n : Nat}
    (hn : v.nesting ≤ n) : v.toJson.Canonical n := by
  induction hplain generalizing n with
  | null => exact .null
  | bool b => exact .bool b
  | int i => exact .int i
  | text s => exact .text s
  | @list items _ ih =>
    cases hordered with
    | list hitems =>
      rw [nesting] at hn
      obtain ⟨n, rfl⟩ : ∃ m, n = m + 1 := ⟨n - 1, by omega⟩
      rw [toJson, toJsonItems_eq_map]
      refine .list fun j hj => ?_
      obtain ⟨v, hv, rfl⟩ := List.mem_map.1 hj
      have hle := nesting_le_nestingItems hv
      exact ih v hv (hitems v hv) (by omega)
  | @record fields _ ih =>
    cases hordered with
    | record hsorted hfields =>
      rw [nesting] at hn
      obtain ⟨n, rfl⟩ : ∃ m, n = m + 1 := ⟨n - 1, by omega⟩
      rw [toJson, toJsonFields_eq_map]
      refine .record (List.pairwise_map.2 hsorted) fun j hj => ?_
      obtain ⟨f, hf, rfl⟩ := List.mem_map.1 hj
      have hle := nesting_le_nestingFields hf
      exact ih f hf (hfields f hf) (by omega)

/-- A plain tree with at most 127 containers inside each other is read back from its JSON text,
which is what a container shows; any tree comes back from its JSON tree as far as that can hold
it. -/
theorem jsonText_roundTrip :
    (∀ v : Data, v.Plain → v.Ordered → v.nesting ≤ 127 →
      ofJsonText? v.toJson.compactText = some v ∧
        (v.isContainer = true → v.render = v.toJson.compactText)) ∧
      ∀ v : Data, ofJson v.toJson = v.portable := by
  refine ⟨fun v hplain hordered hnesting => ⟨?_, fun hcontainer => ?_⟩, ofJson_toJson⟩
  · have hread := Json.ofText?_compactText (hplain.canonical_toJson hordered hnesting)
    rw [ofJsonText?, hread, Option.map_some, ofJson_toJson, hplain.portable_eq]
  · cases v with
    | list items => rfl
    | record fields => rfl
    | _ => cases hcontainer

/-- A record with an empty key, the two ends of the whole numbers, and characters that are escaped
or take several bytes. -/
def extremes : Data :=
  record
    [("", list [int Int64.minValue, int Int64.maxValue, null, list []]),
      ("\u0001", text "/\u007f😀\n"),
      ("\"\\", record [("é", bool false)])]

theorem extremes_jsonText_roundTrip : extremes.Plain ∧ extremes.Ordered ∧ extremes.nesting ≤ 127 ∧
    extremes.render = "\x7b\"\":[-9223372036854775808,9223372036854775807,null,[]]," ++
      "\"\\u0001\":\"/\u007f😀\\n\",\"\\\"\\\\\":\x7b\"é\":false\x7d\x7d" ∧
    ofJsonText? extremes.render = some extremes ∧ ofJson extremes.toJson = extremes.portable := by
  have hplain : extremes.Plain := by
    refine .record (List.forall_mem_cons.2 ⟨.list ?_, List.forall_mem_cons.2 ⟨.text _,
      List.forall_mem_singleton.2 (.record (List.forall_mem_singleton.2 (.bool _)))⟩⟩)
    exact List.forall_mem_cons.2 ⟨.int _, List.forall_mem_cons.2 ⟨.int _,
      List.forall_mem_cons.2 ⟨.null, List.forall_mem_singleton.2 (.list (by simp))⟩⟩⟩
  have hordered : extremes.Ordered := by
    refine .record (by decide) (List.forall_mem_cons.2 ⟨.list ?_, List.forall_mem_cons.2
      ⟨.text _, List.forall_mem_singleton.2
        (.record (List.pairwise_singleton ..) (List.forall_mem_singleton.2 (.bool _)))⟩⟩)
    exact List.forall_mem_cons.2 ⟨.int _, List.forall_mem_cons.2 ⟨.int _,
      List.forall_mem_cons.2 ⟨.null, List.forall_mem_singleton.2 (.list (by simp))⟩⟩⟩
  have hnesting : extremes.nesting ≤ 127 := by decide
  obtain ⟨hread, hrender⟩ := jsonText_roundTrip.1 extremes hplain hordered hnesting
  refine ⟨hplain, hordered, hnesting, by decide +kernel, ?_, jsonText_roundTrip.2 extremes⟩
  rw [hrender rfl]
  exact hread

end SheetTemplate.Data
