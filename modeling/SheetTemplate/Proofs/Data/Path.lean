import SheetTemplate.Proofs.Marker.Scan
import SheetTemplate.Proofs.Marker.Splice
import SheetTemplate.Proofs.Text.Numeral
import SheetTemplate.Proofs.Text.Parts
/-!
Paths that are joined by a dot lead one after the other. An element of a list is therefore reached
from the root by the key of the list and its index, and what an element marker shows of it, a root
marker shows along that path.
-/
namespace SheetTemplate

private theorem Text.split_append (separator : Char) (s t : String) :
    split separator (s ++ String.singleton separator ++ t) =
      split separator s ++ split separator t := by
  have hchars : (s ++ String.singleton separator ++ t).toList =
      s.toList ++ separator :: t.toList := by simp
  rw [split, hchars, parts_append, List.map_append]
  rfl

private theorem Text.split_of_not_mem {separator : Char} {s : String} (h : separator ∉ s.toList) :
    split separator s = [s] := by
  rw [split, parts_of_not_mem h, List.map_singleton, String.ofList_toList]

/-- The decimal text of a number is read back, if the number fits. -/
theorem Text.unsigned64?_decimal {n : Nat} (h : n < twoTo 64) :
    unsigned64? (decimal n) = some n := by
  obtain ⟨c, cs, hdigits⟩ := List.exists_cons_of_ne_nil (digits_ne_nil n)
  have hread := natural?_digits n
  have hc : c ≠ '+' := by
    rintro rfl
    have hdigit := isDigit_of_mem_digits (n := n) (c := '+') (by simp [hdigits])
    exact absurd hdigit (by decide)
  rw [hdigits] at hread
  rw [unsigned64?, decimal, String.toList_ofList, hdigits, unsigned?, hread, Option.filter_some,
    if_pos (decide_eq_true h)]
  rintro rest heq
  exact hc (List.cons.inj heq).1

private theorem Text.dot_not_mem_decimal (n : Nat) : '.' ∉ (decimal n).toList := by
  intro hdot
  rw [decimal, String.toList_ofList] at hdot
  exact absurd (isDigit_of_mem_digits hdot) (by decide)

namespace Data

theorem walk?_append (as bs : List String) (v : Data) :
    walk? (as ++ bs) v = (walk? as v).bind (walk? bs) := by
  induction as generalizing v with
  | nil => rfl
  | cons segment as ih =>
    rw [List.cons_append, walk?, walk?, Option.bind_assoc]
    congr 1
    funext w
    exact ih w

/-- A path that is joined from two leads along the first and from there along the second. -/
theorem resolve?_append (p q : String) (v : Data) :
    v.resolve? (p ++ "." ++ q) = (v.resolve? p).bind (resolve? q) := by
  have hsplit : Text.split '.' (p ++ "." ++ q) = Text.split '.' p ++ Text.split '.' q :=
    Text.split_append '.' p q
  rw [resolve?, hsplit, walk?_append]
  rfl

theorem resolve?_of_not_mem {segment : String} (h : '.' ∉ segment.toList) (v : Data) :
    v.resolve? segment = v.step? segment := by
  rw [resolve?, Text.split_of_not_mem h, walk?]
  cases v.step? segment <;> rfl

private theorem step?_eq_field? {v : Data} {items : List Data} {key : String}
    (h : v.field? key = some (.list items)) : v.step? key = some (.list items) := by
  cases v with
  | record fields => exact h
  | _ => cases h

private theorem step?_decimal {i : Nat} (h : i < twoTo 64) (items : List Data) :
    (Data.list items).step? (Text.decimal i) = items[i]? := by
  rw [step?, Text.unsigned64?_decimal h, Option.bind_some]

/-- The path from the root to a property of one element of the list under a key. -/
def elementPath (key : String) (i : Nat) (property : String) : String :=
  key ++ "." ++ Text.decimal i ++ "." ++ property

/-- From the root an element is reached by the key of its list and its index. -/
theorem resolve?_elementPath {root item : Data} {key : String} {items : List Data} {i : Nat}
    (hlist : root.field? key = some (.list items)) (hkey : '.' ∉ key.toList)
    (hitem : items[i]? = some item) (hi : i < twoTo 64) (property : String) :
    root.resolve? (elementPath key i property) = item.resolve? property := by
  rw [elementPath, resolve?_append, resolve?_append, resolve?_of_not_mem hkey,
    step?_eq_field? hlist, Option.bind_some, resolve?_of_not_mem (Text.dot_not_mem_decimal i),
    step?_decimal hi, hitem, Option.bind_some]

/-! ### Markers -/

theorem substitute_raw {m : Marker} {scopes : List Scope} {fill? : Marker → Option String}
    (hproper : m.Proper) (hscope : m.scope ∈ scopes) :
    substitute scopes fill? (String.ofList m.raw) = String.ofList (m.shown fill?) := by
  have hpieces := pieces_raw_append hproper hscope []
  rw [List.append_nil, pieces] at hpieces
  rw [substitute, String.toList_ofList, substituteChars, hpieces, List.flatMap_singleton]
  rfl

/-- An element marker and a root marker that show the same value, or else stay as they are. -/
structure ShowAlike (key : String) (item root : Data) (m m' : Marker) (value? : Option Data) :
    Prop where
  elementText : item.elementText? key m = value?.map render
  rootText : root.rootText? m' = value?.map render
  filledElement : item.fillElement key (String.ofList m.raw) =
    (value?.map render).getD (String.ofList m.raw)
  filledRoot : root.fillRoot (String.ofList m'.raw) =
    (value?.map render).getD (String.ofList m'.raw)

theorem ofList_shown {fill? : Marker → Option String} {m : Marker} {shown : Option String}
    (h : fill? m = shown) : String.ofList (m.shown fill?) = shown.getD (String.ofList m.raw) := by
  subst h
  cases hm : fill? m with
  | none => rw [Marker.shown_of_none hm, Option.getD_none]
  | some t => rw [Marker.shown_of_some hm, Option.getD_some, String.ofList_toList]

theorem showAlike {key property path : String} {item root : Data} {m m' : Marker}
    (hproper : m.Proper) (hscope : m.scope = .element) (hkey : m.key = key)
    (hproperty : m.property? = some property) (hproper' : m'.Proper) (hscope' : m'.scope = .root)
    (hpath : m'.path = path) (hvalue : root.resolve? path = item.resolve? property) :
    ShowAlike key item root m m' (item.resolve? property) := by
  have helement : item.elementText? key m = (item.resolve? property).map render :=
    elementText?_of_property hkey hproperty
  have hroot : root.rootText? m' = (item.resolve? property).map render := by
    rw [rootText?, hpath, hvalue]
  refine ⟨helement, hroot, ?_, ?_⟩
  · rw [fillElement, substitute_raw hproper (List.mem_singleton.2 hscope)]
    exact ofList_shown helement
  · rw [fillRoot, substitute_raw hproper' (List.mem_singleton.2 hscope')]
    exact ofList_shown hroot

/-- Looking up composes along joined paths. From the root, every property of an element of a list is
reached by the key of the list and the index of the element; the element marker of the property
shows of the element what the root marker with that path shows of the root. -/
theorem resolve?_composes (v : Data) :
    (∀ p q w, v.resolve? (p ++ "." ++ q) = some w ↔
      ∃ u, v.resolve? p = some u ∧ u.resolve? q = some w) ∧
    ∀ (key : String) (items : List Data) (i : Nat) (item : Data),
      v.field? key = some (.list items) → '.' ∉ key.toList → items[i]? = some item →
      i < twoTo 64 → ∀ property : String,
        item.resolve? property = v.resolve? (elementPath key i property) ∧
        ∀ m m' : Marker, m.Proper → m.scope = .element → m.key = key →
          m.property? = some property → m'.Proper → m'.scope = .root →
          m'.path = elementPath key i property →
            ShowAlike key item v m m' (item.resolve? property) := by
  constructor
  · intro p q w
    rw [resolve?_append, Option.bind_eq_some_iff]
  · intro key items i item hlist hkey hitem hi property
    have hsame := resolve?_elementPath hlist hkey hitem hi property
    refine ⟨hsame.symm, ?_⟩
    intro m m' hproper hscope hmkey hproperty hproper' hscope' hpath
    exact showAlike hproper hscope hmkey hproperty hproper' hscope' hpath hsame

def taggedOrder : Data :=
  record [("tags", .list [.text "x", .text "y"])]

/-- In the order the second tag is reached by an element marker, and from the root, which holds the
order in a list, by a root marker. -/
theorem taggedOrder_resolve?_composes :
    ShowAlike "orders" taggedOrder (record [("orders", .list [.null, taggedOrder])])
      ⟨.element, "orders. tags.1".toList⟩ ⟨.root, "orders.1.tags.1 ".toList⟩
      (some (.text "y")) :=
  ((resolve?_composes (record [("orders", .list [.null, taggedOrder])])).2 "orders"
    [.null, taggedOrder] 1 taggedOrder rfl (by decide) rfl (by decide) "tags.1").2
    ⟨.element, "orders. tags.1".toList⟩ ⟨.root, "orders.1.tags.1 ".toList⟩
    ⟨by decide +kernel, by decide +kernel⟩ rfl (by decide +kernel) (by decide +kernel)
    ⟨by decide +kernel, by decide +kernel⟩ rfl (by decide +kernel)

end Data

end SheetTemplate
