import SheetTemplate.Proofs.Package.Parts
import SheetTemplate.Proofs.Xml.Fold
/-!
The texts that the cells of a written package share are read back as they are, unless one of them
looks like rich text already.
-/
namespace SheetTemplate

/-- The text is taken for runs of rich text when it is written. -/
def Text.LooksRich (s : String) : Prop :=
  "<r>".toList.isPrefixOf s.toList = true ∧ "</r>".toList.isSuffixOf s.toList = true

instance (s : String) : Decidable (Text.LooksRich s) :=
  inferInstanceAs (Decidable (_ ∧ _))

namespace Package
open Xml

def textNode (s : String) : Node :=
  .element "si" [] [.holding "t" [("xml:space", "preserve")] s]

def textsNode (texts : List String) : Node :=
  .element "sst" [("xmlns", workbookVocabulary)] (texts.map textNode)

def textNames : List String := ["sst", "si", "t"]

private theorem tidy_textsNode (texts : List String) : (textsNode texts).Tidy textNames := by
  refine .element (by decide) (by decide) (by simp [Fields.Plain]; decide) fun n hn => ?_
  obtain ⟨s, -, rfl⟩ := List.mem_map.1 hn
  refine .element (by decide) (by decide) Fields.plain_nil fun m hm => ?_
  rw [List.mem_singleton.1 hm]
  exact .holding s (by decide) (by decide) (by simp [Fields.Plain]; decide)

private theorem sharedTexts_eq {texts : List String} (h : ∀ t ∈ texts, ¬Text.LooksRich t) :
    sharedTexts texts = document (textsNode texts) := by
  have hchars : texts.flatMap sharedTextChars = (texts.map textNode).flatMap Node.chars := by
    rw [List.flatMap_map]
    refine List.flatMap_congr fun t ht => ?_
    rw [sharedTextChars, if_neg (by simpa [Text.LooksRich] using h t ht), textNode]
  have hfields : Fields.chars [("xmlns", workbookVocabulary)] =
      " xmlns=\"".toList ++ workbookVocabulary.toList ++ ['"'] := by
    decide +kernel
  rw [sharedTexts, document, textsNode, chars_element, hchars, hfields]
  simp

end Package

namespace RichText
open Xml Package

/-- A text is read as it is. -/
theorem foldlM_textNode {r : Reading} (hcurrent : r.current = none) (hdone : r.done = false)
    (s : String) : (textNode s).events.foldlM readShared? r =
      some { r with texts := s :: r.texts } := by
  obtain ⟨texts, current, done⟩ := r
  subst hcurrent hdone
  have hpiece : (Node.text s).events.foldlM readShared?
      ⟨texts, some ("si", .inside none "t" ""), false⟩ =
        some ⟨texts, some ("si", .inside none "t" s), false⟩ := by
    rw [Node.events]
    split
    · rename_i hempty
      rw [String.isEmpty_iff.1 hempty]
      rfl
    · simp [readShared?, readEvent?, unescape?_escapeText]
  have hholding : (Node.holding "t" [("xml:space", "preserve")] s).events.foldlM readShared?
      ⟨texts, some ("si", .between none false), false⟩ =
        some ⟨texts, some ("si", .after s 0), false⟩ := by
    refine foldlM_element (c := ⟨texts, some ("si", .inside none "t" ""), false⟩) ?_
      (by rwa [List.flatMap_singleton]) ?_
    · simp [readShared?, readEvent?, localName_eq_self]
    · simp [readShared?, readEvent?]
  refine foldlM_element (c := ⟨texts, some ("si", .between none false), false⟩) ?_
    (by rwa [List.flatMap_singleton]) ?_
  · simp [readShared?, localName_eq_self]
  · simp [readShared?, readEvent?]

private theorem foldlM_textNodes {r : Reading} (hcurrent : r.current = none)
    (hdone : r.done = false)
    (texts : List String) :
    ((texts.map textNode).flatMap Node.events).foldlM readShared? r =
      some { r with texts := texts.reverse ++ r.texts } := by
  induction texts generalizing r with
  | nil => rfl
  | cons s texts ih =>
    have hrest := ih (r := { r with texts := s :: r.texts }) hcurrent hdone
    rw [List.map_cons, List.flatMap_cons,
      foldlM_append_of_eq_pure (foldlM_textNode hcurrent hdone s), hrest]
    simp

/-- The shared texts of a written package are those of its sheets, in their order. -/
theorem ofPackage?_ofSheets {sheets : List WrittenSheet}
    (h : ∀ t ∈ sheets.flatMap WrittenSheet.texts, ¬Text.LooksRich t) :
    ofPackage? (ofSheets sheets) = some (sheets.flatMap WrittenSheet.texts) := by
  obtain ⟨texts, htexts⟩ : ∃ texts, texts = sheets.flatMap WrittenSheet.texts := ⟨_, rfl⟩
  rw [← htexts] at h
  have hread : (tolerantEvents (document (textsNode texts))).foldlM readShared? {} =
      some { texts := texts.reverse, done := true } := by
    refine foldlM_document (tidy_textsNode texts) rfl rfl
      (foldlM_element (c := {}) ?_ (foldlM_textNodes rfl rfl texts) ?_)
    · simp [readShared?, localName_eq_self]
    · simp [readShared?, localName_eq_self]
  rw [ofPackage?, tolerantEvents?, similarPart?_texts, ← htexts, sharedTexts_eq h]
  simp [hread]

end RichText

end SheetTemplate
