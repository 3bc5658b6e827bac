import SheetTemplate.Proofs.Marker.Substitute
/-!
What filling from the root leaves of the markers of a text. If everything that it brings in is
inert, then only the markers that lead nowhere are left, and filling once more changes nothing.
-/
namespace SheetTemplate.Data
variable {data : Data} {t : String}

private theorem rootText?_eq_none_iff {m : Marker} :
    data.rootText? m = none ↔ data.resolve? m.path = none :=
  Option.map_eq_none_iff

private theorem inert_of_rootText? (h : ∀ m ∈ markersOf [.root] t, ∀ value,
    data.resolve? m.path = some value → Inert value.render) :
    ∀ m ∈ markersOf [.root] t, ∀ shown, data.rootText? m = some shown → Inert shown := by
  intro m hm shown hshown
  obtain ⟨value, hvalue, rfl⟩ := Option.map_eq_some_iff.1 hshown
  exact h m hm value hvalue

theorem fillRoot_leaves_unresolved (data : Data) (t : String)
    (h : ∀ m ∈ markersOf [.root] t, ∀ value, data.resolve? m.path = some value →
      Inert value.render) :
    markersOf [.root] (data.fillRoot t) =
        (markersOf [.root] t).filter (fun m => (data.resolve? m.path).isNone) ∧
      data.fillRoot (data.fillRoot t) = data.fillRoot t := by
  have hfilled : InertlyFilled data.rootText? t.toList := .of_markersOf (inert_of_rootText? h)
  constructor
  · rw [markersOf, fillRoot, substitute, String.toList_ofList, pieces_substituteChars hfilled,
      filterMap_marker?_flatMap_fill, ← markersOf]
    congr 1
    funext m
    rw [Bool.eq_iff_iff, decide_eq_true_iff, Option.isNone_iff_eq_none, rootText?_eq_none_iff]
  · rw [fillRoot, fillRoot, substitute, substitute, String.toList_ofList,
      substituteChars_idem hfilled]

/-- A text in which braces stand on both sides of a marker. -/
def greeting : String := "{{x}{{ name }}} {{gone}}"

theorem greeting_leaves_unresolved :
    (∀ m ∈ markersOf [.root] greeting, ∀ value,
      (record [("name", .text "Ana")]).resolve? m.path = some value → Inert value.render) ∧
    markersOf [.root] ((record [("name", .text "Ana")]).fillRoot greeting) =
      (markersOf [.root] greeting).filter
        (fun m => ((record [("name", .text "Ana")]).resolve? m.path).isNone) ∧
    (record [("name", .text "Ana")]).fillRoot ((record [("name", .text "Ana")]).fillRoot greeting) =
      (record [("name", .text "Ana")]).fillRoot greeting := by
  have hclean : ∀ m ∈ markersOf [.root] greeting, ∀ value,
      (record [("name", .text "Ana")]).resolve? m.path = some value → Inert value.render := by
    decide +kernel
  exact ⟨hclean, fillRoot_leaves_unresolved _ greeting hclean⟩

example : (record [("name", .text "Ana")]).fillRoot greeting = "{{x}Ana} {{gone}}" := by
  decide +kernel

end SheetTemplate.Data
