import Mathlib.Data.List.Nodup
import SheetTemplate.Proofs.Package.Load
/-!
Workbooks that were saved and loaded again. Every sheet has the validations that are left of what
was stored, so a validation comes back exactly if it is no formula that ends in a closing brace; and
a workbook can be loaded again if none of its texts looks like rich text.
-/
namespace SheetTemplate

section lists
variable {α β : Type}

theorem exists_of_forall₂ {R : α → β → Prop} {as : List α} {bs : List β} (h : List.Forall₂ R as bs)
    {i : Nat} {b : β} (hb : bs[i]? = some b) : ∃ a, as[i]? = some a ∧ R a b := by
  induction h generalizing i with
  | nil => cases hb
  | cons hab _ ih =>
    cases i with
    | zero => exact ⟨_, rfl, Option.some.inj hb ▸ hab⟩
    | succ i => exact ih hb

theorem length_eraseDups_le [DecidableEq α] (l : List α) : l.eraseDups.length ≤ l.length := by
  match l with
  | [] => exact Nat.le_refl 0
  | a :: l =>
    have hfilter := List.length_filter_le (fun b => !b == a) l
    have hrest := length_eraseDups_le (l.filter fun b => !b == a)
    rw [List.eraseDups_cons, List.length_cons, List.length_cons]
    omega
termination_by l.length

/-- A list from which nothing is erased has no duplicates. -/
theorem nodup_of_length_le [DecidableEq α] {l : List α} (h : l.length ≤ l.eraseDups.length) :
    l.Nodup := by
  induction l with
  | nil => exact .nil
  | cons a l ih =>
    have hfilter := List.length_filter_le (fun b => !b == a) l
    have hrest := length_eraseDups_le (l.filter fun b => !b == a)
    rw [List.eraseDups_cons, List.length_cons, List.length_cons] at h
    have hall : l.filter (fun b => !b == a) = l :=
      List.filter_eq_self.2 (List.length_filter_eq_length_iff.1 (by omega))
    rw [hall] at h
    refine List.nodup_cons.2 ⟨fun ha => ?_, ih (by omega)⟩
    have := List.filter_eq_self.1 hall a ha
    simp at this

end lists

namespace WrittenSheet

private theorem forall₂_of_mapM {sources : List Sheet} {sheets : List WrittenSheet}
    (h : sources.mapM ofSheet = .ok sheets) : List.Forall₂ IsOf sources sheets := by
  induction sources generalizing sheets with
  | nil =>
    cases h
    exact .nil
  | cons s sources ih =>
    rw [List.mapM_cons] at h
    obtain ⟨written, hwritten, h⟩ := bind_eq_ok h
    obtain ⟨rest, hrest, h⟩ := bind_eq_ok h
    cases h
    exact .cons (isOf_of_ofSheet hwritten) (ih hrest)

/-- A text is written for the same text, or for a number that is not finite. -/
theorem eq_of_ofValue_eq_text {value : CellValue} {t : String}
    (h : WrittenValue.ofValue value = .text t) :
    value = .text t ∨ t ∈ ["NAN", "-INF", "INF"] := by
  cases value with
  | text s =>
    rw [WrittenValue.ofValue] at h
    split at h
    · cases h
    · exact Or.inl (congrArg CellValue.text (WrittenValue.text.inj h))
  | number x =>
    rw [WrittenValue.ofValue] at h
    split at h
    · exact Or.inr (by simp [← WrittenValue.text.inj h])
    · split at h
      · rw [← WrittenValue.text.inj h]
        split <;> exact Or.inr (by simp)
      · cases h
  | _ => cases h

private theorem sharedText?_eq_some {e : CellRef × WrittenCell} {t : String}
    (h : sharedText? e = some t) :
    e.2.value = .text t := by
  unfold sharedText? at h
  split at h
  · rename_i s hs
    rw [hs, Option.some.inj h]
  · cases h

/-- Every text that is written is one of the sheet, unless it stands for a number. -/
theorem mem_texts {s : Sheet} {written : WrittenSheet} (h : IsOf s written) {t : String}
    (ht : t ∈ written.texts) :
    (∃ place c, s.cell? place = some c ∧ c.value = .text t) ∨ t ∈ ["NAN", "-INF", "INF"] := by
  rw [texts_eq, List.mem_filterMap] at ht
  obtain ⟨e, he, ht⟩ := ht
  have hvalue := sharedText?_eq_some ht
  rw [h.cells_eq] at he
  rcases mem_cellsOf he with ⟨c, hc, hwritten⟩ | ⟨r, -, hblank⟩
  · rw [hwritten] at hvalue
    exact (eq_of_ofValue_eq_text hvalue).imp_left fun hc' =>
      ⟨e.1, c, Table.find?_eq_some_iff.2 hc, hc'⟩
  · simp only [blanks] at hblank
    split at hblank
    · cases hblank
    · obtain ⟨place, -, rfl⟩ := List.mem_map.1 hblank
      cases hvalue

end WrittenSheet

namespace Package

/-- The shared texts have to be read before anything else. -/
theorem exists_texts_of_load {p : Package} {w : Workbook} (h : p.load = .ok w) :
    ∃ texts, RichText.ofPackage? p = some texts := by
  cases htexts : RichText.ofPackage? p with
  | none =>
    rw [load, htexts] at h
    cases h
  | some texts => exact ⟨texts, rfl⟩

theorem sound_of_forall₂ {sources : List Sheet} {sheets : List WrittenSheet}
    (h : List.Forall₂ WrittenSheet.IsOf sources sheets) : ∀ s ∈ sheets, s.Sound := by
  intro written hwritten
  obtain ⟨i, hi⟩ := List.getElem?_of_mem hwritten
  obtain ⟨s, -, hof⟩ := exists_of_forall₂ h hi
  exact hof.sound

/-- What every sheet looks like, by the sheet that it was written for. -/
theorem exists_looks_of_forall₂ {sources : List Sheet} {sheets : List WrittenSheet}
    (h : List.Forall₂ WrittenSheet.IsOf sources sheets) :
    ∃ look : Nat → SheetLook, (∀ i s, sources[i]? = some s → ∀ place,
        ((look i).cells.find? place).bind (·.validation) =
          (s.cell? place).bind fun c => WrittenSheet.keptValidation? (place, c)) ∧
      (ofSheets sheets).looks =
        .ok ((sheets.map WrittenSheet.name).zipIdx.map fun e => (e.1, look e.2)).reverse := by
  obtain ⟨look, hlook, hlooks⟩ := exists_looks_ofSheets sheets
    (P := fun i look => ∀ s, sources[i]? = some s → ∀ place,
      (look.cells.find? place).bind (·.validation) =
        (s.cell? place).bind fun c => WrittenSheet.keptValidation? (place, c)) (by
    intro formats hformats i written hwritten
    obtain ⟨s, hs, hof⟩ := exists_of_forall₂ h hwritten
    obtain ⟨look, hlook, hvalidation⟩ := SheetLook.ofEvents_written hformats hof
      (formatsOf sheets) (textsBefore sheets i)
    exact ⟨look, hlook, fun s' hs' => Option.some.inj (hs.symm.trans hs') ▸ hvalidation⟩)
  refine ⟨look, fun i s hs => hlook i ?_ s hs, hlooks⟩
  rw [← h.length_eq]
  exact (List.getElem?_eq_some_iff.1 hs).1

end Package

namespace Workbook
open Package WrittenSheet

/-- No cell holds a text that looks like rich text. -/
def WithoutRichTexts (w : Workbook) : Prop :=
  ∀ s ∈ w.sheets, ∀ place c, s.cell? place = some c → ∀ t, c.value = .text t → ¬Text.LooksRich t

def sources (w : Workbook) : List Sheet :=
  if w.sheets.isEmpty then [Sheet.named "Sheet1"] else w.sheets

theorem sources_getElem? {w : Workbook} {i : Nat} {s : Sheet} (hs : w.sheets[i]? = some s) :
    w.sources[i]? = some s := by
  rw [sources, if_neg, hs]
  simp [List.ne_nil_of_mem (List.mem_of_getElem? hs)]

private theorem isOf_onlySheet : IsOf (Sheet.named "Sheet1") onlySheet where
  name_eq := rfl
  cells_eq := by
    have hmerges : mergesOf (Sheet.named "Sheet1") = [] := rfl
    rw [cellsOf, hmerges, List.flatMap_nil, Table.ofList, Table.ofListWith, Table.mergeWith]
    simp only [Table.empty, Table.mergeEntries]
    rfl
  validations_eq := rfl
  cells_checked := fun _ he => absurd he List.not_mem_nil
  validations_stored := fun _ he => absurd he List.not_mem_nil
  merges_eq := rfl
  merges_checked := fun _ hr => absurd hr List.not_mem_nil

/-- A workbook that can be saved becomes a package of its sheets, under names that differ. -/
theorem save_eq_ok {w : Workbook} {p : Package} (h : w.save = .ok p) :
    ∃ sheets, List.Forall₂ IsOf w.sources sheets ∧ (sheets.map WrittenSheet.name).Nodup ∧
      p = ofSheets sheets := by
  obtain ⟨sheets, hsheets, h⟩ := bind_eq_ok h
  cases hmap : w.sheets.mapM WrittenSheet.ofSheet with
  | error e =>
    rw [hmap] at hsheets
    cases hsheets
  | ok written =>
    rw [hmap] at hsheets
    obtain rfl := Except.ok.inj hsheets
    have hall := forall₂_of_mapM hmap
    simp only at h
    split at h
    · cases h
    · rename_i hnames
      have hlower := nodup_of_length_le (Nat.not_lt.1 hnames)
      have hnodup : (written.map WrittenSheet.name).Nodup :=
        List.Nodup.of_map Text.lower (by rwa [List.map_map])
      cases h
      cases hempty : w.sheets with
      | nil =>
        rw [hempty] at hall
        cases hall
        rw [sources, hempty]
        exact ⟨[onlySheet], .cons isOf_onlySheet .nil, List.nodup_singleton _, rfl⟩
      | cons s rest =>
        rw [hempty] at hall
        rw [sources, hempty]
        cases hall with
        | cons hs hrest => exact ⟨_, .cons hs hrest, hnodup, rfl⟩

/-- A workbook can be saved only if its validations can be stored. -/
theorem exists_store {w : Workbook} {p : Package} (hsave : w.save = .ok p) {i : Nat} {s : Sheet}
    (hs : w.sheets[i]? = some s) {place : CellRef} {c : Cell} (hc : s.cell? place = some c)
    {v : Validation} (hv : c.presentation.validation = some v) :
    ∃ sv, StoredValidation.store v place = .ok sv := by
  obtain ⟨sheets, hall, -, -⟩ := save_eq_ok hsave
  obtain ⟨written, -, hof⟩ := exists_of_forall₂ hall.flip (sources_getElem? hs)
  exact hof.validations_stored (place, c) (Table.find?_eq_some_iff.1 hc) v hv

/-- Every sheet comes back in its place. It is read from the part that was written for it, with the
look of that part. -/
theorem exists_sheet?_of_load {w w' : Workbook} {p : Package} (hsave : w.save = .ok p)
    (hload : p.load = .ok w') {i : Nat} {s : Sheet} (hs : w.sheets[i]? = some s) :
    ∃ (sheets : List WrittenSheet) (written : WrittenSheet) (shelf : Shelf) (look : SheetLook)
      (s' : Sheet), (p = ofSheets sheets ∧ (sheets.map WrittenSheet.name).Nodup) ∧
        (sheets[i]? = some written ∧ IsOf s written) ∧
        (∀ place, (look.cells.find? place).bind (·.validation) =
          (s.cell? place).bind fun c => keptValidation? (place, c)) ∧
        w'.sheets[i]? = some s' ∧
        p.sheet? shelf (SheetEntry.numbered (sheets.map WrittenSheet.name)) written.name look =
          some s' := by
  obtain ⟨sheets, hall, hnames, rfl⟩ := save_eq_ok hsave
  obtain ⟨look, hlook, hlooks⟩ := exists_looks_of_forall₂ hall
  obtain ⟨texts, htexts⟩ := exists_texts_of_load hload
  obtain ⟨kinds, hread⟩ := load_ofSheets (sound_of_forall₂ hall) hlooks
  rw [hread texts htexts] at hload
  have hsource := sources_getElem? hs
  obtain ⟨written, hwritten, hof⟩ := exists_of_forall₂ hall.flip hsource
  have hname : (sheets.map WrittenSheet.name)[i]? = some written.name := by
    rw [List.getElem?_map, hwritten]
    rfl
  obtain ⟨found, hfound, hw'⟩ := bind_eq_ok hload
  cases hw'
  obtain ⟨s', hs', hsheet⟩ := exists_of_sheets_eq_ok hnames hfound hname
  rw [lookOf_numbered hnames hname] at hsheet
  exact ⟨sheets, written, _, look i, s', ⟨rfl, hnames⟩, ⟨hwritten, hof⟩, hlook i s hsource, hs',
    hsheet⟩

/-- Every sheet comes back with the validations that are left of what was stored. -/
theorem validation?_load {w w' : Workbook} {p : Package} (hsave : w.save = .ok p)
    (hload : p.load = .ok w') {i : Nat} {s : Sheet} (hs : w.sheets[i]? = some s) :
    ∃ s', w'.sheets[i]? = some s' ∧ ∀ place, s'.validation? place =
      (s.cell? place).bind fun c => keptValidation? (place, c) := by
  obtain ⟨_, _, _, _, s', -, -, hlook, hs', hsheet⟩ := exists_sheet?_of_load hsave hload hs
  refine ⟨s', hs', fun place => ?_⟩
  rw [validation?_of_sheet? hsheet, hlook]

private theorem withoutRichTexts_sources {w : Workbook} (h : w.WithoutRichTexts) :
    ∀ s ∈ w.sources, ∀ place c, s.cell? place = some c → ∀ t, c.value = .text t →
      ¬Text.LooksRich t := by
  intro s hs
  rw [sources] at hs
  split at hs
  · rw [List.mem_singleton.1 hs]
    intro place c hc
    cases hc
  · exact h s hs

/-- A workbook without texts that look like rich text can be loaded again. -/
theorem exists_load {w : Workbook} {p : Package} (hsave : w.save = .ok p)
    (hplain : w.WithoutRichTexts) : ∃ w', p.load = .ok w' := by
  obtain ⟨sheets, hall, -, rfl⟩ := save_eq_ok hsave
  obtain ⟨look, -, hlooks⟩ := exists_looks_of_forall₂ hall
  have hsound := sound_of_forall₂ hall
  have htexts : RichText.ofPackage? (ofSheets sheets) =
      some (sheets.flatMap WrittenSheet.texts) := by
    refine RichText.ofPackage?_ofSheets fun t ht => ?_
    obtain ⟨written, hwritten, ht⟩ := List.mem_flatMap.1 ht
    obtain ⟨i, hi⟩ := List.getElem?_of_mem hwritten
    obtain ⟨s, hs, hof⟩ := exists_of_forall₂ hall hi
    rcases mem_texts hof ht with ⟨place, c, hc, hvalue⟩ | hnumber
    · exact withoutRichTexts_sources hplain s (List.mem_of_getElem? hs) place c hc t hvalue
    · exact (by decide : ∀ t ∈ ["NAN", "-INF", "INF"], ¬Text.LooksRich t) t hnumber
  obtain ⟨kinds, hread⟩ := load_ofSheets hsound hlooks
  have hsheets : ∀ name ∈ sheets.map WrittenSheet.name, ∀ look,
      ((ofSheets sheets).sheet? ⟨(sheets.flatMap WrittenSheet.texts).toArray, kinds⟩
        (SheetEntry.numbered (sheets.map WrittenSheet.name)) name look).isSome := by
    intro name hname look
    obtain ⟨i, written, hwritten, hpart⟩ := partOf?_numbered hname
    obtain ⟨values, hvalues⟩ := Shelf.exists_values?
      ⟨(sheets.flatMap WrittenSheet.texts).toArray, kinds⟩ (hsound written
        (List.mem_of_getElem? hwritten)) (formatsOf sheets) (textsBefore_add_le hwritten)
    rw [sheet?, hpart, Option.bind_some, tolerantEvents?_sheet hwritten]
    simp only [partText, Option.bind_eq_bind, Option.bind_some, hvalues]
    rfl
  obtain ⟨found, hfound⟩ := exists_sheets_eq_ok _ hsheets
  exact ⟨⟨found⟩, by rw [hread _ htexts, hfound]; rfl⟩

/-- A validation that can be told from others comes back, with its choices split at their commas,
exactly if it is no formula with a closing brace at its end. -/
theorem validation?_load_iff {w w' : Workbook} {p : Package} (hsave : w.save = .ok p)
    (hload : p.load = .ok w') {i : Nat} {s : Sheet} (hs : w.sheets[i]? = some s) {place : CellRef}
    {v : Validation} (hv : s.validation? place = some v) (hrule : v.rule.Storable)
    (hmessage : v.message ≠ some "") :
    ∃ s', w'.sheets[i]? = some s' ∧
      (s'.validation? place = some { v with rule := v.rule.splitChoices } ↔
        ¬v.rule.EndsInBrace) := by
  obtain ⟨c, hc, hv⟩ := Option.bind_eq_some_iff.1 hv
  obtain ⟨s', hs', hkept⟩ := validation?_load hsave hload hs
  obtain ⟨sv, hsv⟩ := exists_store hsave hs hc hv
  refine ⟨s', hs', ?_⟩
  rw [hkept, hc, Option.bind_some, keptValidation?, storedValidation?, hv, Option.bind_some, hsv]
  exact StoredValidation.validation?_found_iff hsv hrule hmessage

/-- What becomes of the validations of a workbook that can be saved. It can be loaded again unless
some text looks like rich text; then every validation that can be told from others comes back in its
sheet and cell, exactly if it is no formula with a closing brace at its end. Choices are split at
their commas, so those without commas are the same. -/
theorem validations_roundTrip {w : Workbook} {p : Package} (hsave : w.save = .ok p) :
    (w.WithoutRichTexts → ∃ w', p.load = .ok w') ∧
      (∀ w', p.load = .ok w' → ∀ (i : Nat) (s : Sheet) (place : CellRef) (v : Validation),
        w.sheets[i]? = some s → s.validation? place = some v → v.rule.Storable →
          v.message ≠ some "" →
          ∃ s', w'.sheets[i]? = some s' ∧
            (s'.validation? place = some { v with rule := v.rule.splitChoices } ↔
              ¬v.rule.EndsInBrace)) ∧
      ∀ choices : List String, (∀ c ∈ choices, ',' ∉ c.toList) →
        (Rule.list choices).splitChoices = .list choices :=
  ⟨exists_load hsave,
    fun _ hload _ _ _ _ hs hv hrule hmessage =>
      validation?_load_iff hsave hload hs hv hrule hmessage,
    fun _ hcommas => Rule.splitChoices_list hcommas⟩

def guardedSheet (v : Validation) : Sheet :=
  { Sheet.named "S" with
    cells := Table.singleton ⟨1, 1⟩ { presentation := { validation := some v } } }

def guarded (v : Validation) : Workbook :=
  ⟨[guardedSheet v]⟩

theorem withoutRichTexts_guarded (v : Validation) : (guarded v).WithoutRichTexts := by
  intro s hs place c hc t ht
  obtain rfl := List.mem_singleton.1 hs
  obtain hmem := Table.find?_eq_some_iff.1 hc
  obtain ⟨rfl, rfl⟩ := Prod.mk.inj (List.mem_singleton.1 hmem)
  cases ht

/-- Two answers, of which the second has a comma and quotes. -/
def answers : Validation where
  rule := .list ["yes", "no, \"never\""]
  message := some "One of these, please."

/-- The answers come back as three, and their message as it was. -/
theorem answers_roundTrip : ∃ p w' s', (guarded answers).save = .ok p ∧ p.load = .ok w' ∧
    w'.sheets[0]? = some s' ∧ s'.validation? ⟨1, 1⟩ =
      some { answers with rule := .list ["yes", "no", " \"never\""] } := by
  obtain ⟨p, hsave⟩ : ∃ p, (guarded answers).save = .ok p := ⟨_, rfl⟩
  obtain ⟨hexists, hreturn, -⟩ := validations_roundTrip hsave
  obtain ⟨w', hload⟩ := hexists (withoutRichTexts_guarded answers)
  obtain ⟨s', hs', hiff⟩ := hreturn w' hload 0 _ ⟨1, 1⟩ answers rfl rfl (by decide) (by decide)
  exact ⟨p, w', s', hsave, hload, hs', hiff.2 id⟩

def constant : Validation where
  rule := .custom "A1=\x7b1\x7d"

/-- The closing brace of the constant gets lost. -/
theorem constant_not_returned : ∃ p w' s', (guarded constant).save = .ok p ∧ p.load = .ok w' ∧
    constant.rule.Storable ∧ constant.message ≠ some "" ∧ w'.sheets[0]? = some s' ∧
      s'.validation? ⟨1, 1⟩ ≠ some { constant with rule := constant.rule.splitChoices } := by
  obtain ⟨p, hsave⟩ : ∃ p, (guarded constant).save = .ok p := ⟨_, rfl⟩
  obtain ⟨w', hload⟩ := exists_load hsave (withoutRichTexts_guarded constant)
  have hrule : constant.rule.Storable := by decide
  have hcell : Sheet.validation? (guardedSheet constant) ⟨1, 1⟩ = some constant := rfl
  obtain ⟨s', hs', hiff⟩ := validation?_load_iff hsave hload (i := 0) rfl hcell hrule (by decide)
  exact ⟨p, w', s', hsave, hload, hrule, by decide, hs', fun h => hiff.1 h (by decide)⟩

end Workbook

end SheetTemplate
