import SheetTemplate.Package.Load
import SheetTemplate.Proofs.Grid.Range
import SheetTemplate.Proofs.Grid.Spelling
import SheetTemplate.Proofs.Package.Overlay
import SheetTemplate.Proofs.Package.WrittenSheet
/-!
The areas of a worksheet part. Cells that are read one after the other fill an area from the first
to the last row and column that has one, and the sheet that a part makes is the one that these areas
are put into.
-/
namespace SheetTemplate
open WrittenSheet (Placed)

/-! ## Places that are read -/

namespace Package

theorem rowAndColumn?_pos {raw : List Char} {row : Nat} {column? : Option Nat}
    (h : rowAndColumn? raw = some (row, column?)) :
    0 < row ∧ ∀ column, column? = some column → 0 < column := by
  unfold rowAndColumn? at h
  dsimp only at h
  split at h
  · cases h
  · split at h
    · cases h
    · rename_i hrow
      cases h
      refine ⟨Nat.pos_of_ne_zero hrow, fun column hcolumn => ?_⟩
      obtain ⟨hletters, hvalue⟩ := Option.ite_none_left_eq_some.1 hcolumn
      exact (Column.letters_of_value? (by simpa using hletters) hvalue).1

theorem cellRef?_placed {raw : List Char} {place : CellRef} (h : cellRef? raw = some place) :
    Placed place := by
  unfold cellRef? at h
  split at h
  · rename_i row column hread
    cases h
    obtain ⟨hrow, hcolumn⟩ := rowAndColumn?_pos hread
    exact ⟨hrow, hcolumn column rfl⟩
  · cases h

private theorem corners?_placed {raw : List Char} {a b : CellRef} (h : corners? raw = some (a, b)) :
    Placed a ∧ Placed b := by
  unfold corners? at h
  split at h
  · obtain ⟨c, hc, hab⟩ := Option.map_eq_some_iff.1 h
    cases hab
    exact ⟨cellRef?_placed hc, cellRef?_placed hc⟩
  · split at h
    · rename_i ha hb
      cases h
      exact ⟨cellRef?_placed ha, cellRef?_placed hb⟩
    · cases h
  · cases h

end Package

namespace CellReader
variable {σ α β : Type} {reader : CellReader σ α} {blank : α}

/-- All places that a reader knows of are counted from 1. -/
structure Reading.Sound (r : Reading σ α) : Prop where
  next : Placed ⟨r.row, r.column⟩
  tag : ∀ tag value child, r.stage = .cell tag value child → Placed tag.place
  cells : ∀ c ∈ r.cells, Placed c.1

private theorem openFront?_sound {r r' : Reading σ α} {name : String} {raw : List Char}
    (hr : r.Sound)
    (h : openFront? r name raw = some r') : r'.Sound := by
  unfold openFront? at h
  split at h
  · split at h
    · obtain ⟨_, -, rfl⟩ := Option.map_eq_some_iff.1 h
      exact hr
    · cases h
  · cases h
    exact ⟨hr.next, fun _ _ _ hcell => (nomatch hcell), hr.cells⟩
  · cases h
    exact ⟨hr.next, fun _ _ _ hcell => (nomatch hcell), hr.cells⟩

private theorem openRow?_sound {r r' : Reading σ α} {name : String} {raw : List Char} (hr : r.Sound)
    (h : openRow? blank r name raw = some r') : r'.Sound := by
  unfold openRow? at h
  dsimp only at h
  split at h
  · split at h
    · cases h
    · cases h
      exact hr
    · obtain ⟨⟨row, column?⟩, hread, rfl⟩ := Option.map_eq_some_iff.1 h
      exact ⟨⟨(Package.rowAndColumn?_pos hread).1, hr.next.2⟩, hr.tag, hr.cells⟩
  · split at h
    · cases h
    · cases h
      exact ⟨hr.next, fun tag _ _ hcell => by cases hcell; exact hr.next, hr.cells⟩
    · obtain ⟨place, hread, rfl⟩ := Option.map_eq_some_iff.1 h
      have hplaced := Package.cellRef?_placed hread
      exact ⟨⟨hr.next.1, hplaced.2⟩, fun tag _ _ hcell => by cases hcell; exact hplaced, hr.cells⟩
  · cases h
    exact hr

private theorem readEvent?_sound {r r' : Reading σ α} {e : Xml.Event} (hr : r.Sound)
    (h : reader.readEvent? blank r e = some r') : r'.Sound := by
  unfold readEvent? at h
  split at h
  · cases h
    exact hr
  · cases h
  · exact openFront?_sound hr h
  · exact openRow?_sound hr h
  · split at h <;> cases h
    · exact ⟨⟨Nat.succ_pos _, Nat.one_pos⟩, hr.tag, hr.cells⟩
    · exact ⟨hr.next, fun _ _ _ hcell => (nomatch hcell), hr.cells⟩
    · exact hr
  · rename_i hstage
    obtain ⟨child, -, rfl⟩ := Option.map_eq_some_iff.1 h
    exact ⟨hr.next, fun tag _ _ hcell => by cases hcell; exact hr.tag _ _ _ hstage, hr.cells⟩
  · rename_i hstage
    cases h
    split
    · refine ⟨⟨hr.next.1, Nat.succ_pos _⟩, fun _ _ _ hcell => (nomatch hcell), ?_⟩
      exact List.forall_mem_cons.2 ⟨hr.tag _ _ _ hstage, hr.cells⟩
    · exact hr
  · rename_i hstage _
    split at h
    · cases h
    · cases h
      exact ⟨hr.next, fun tag _ _ hcell => by cases hcell; exact hr.tag _ _ _ hstage, hr.cells⟩
    · obtain ⟨⟨kept, value⟩, -, rfl⟩ := Option.map_eq_some_iff.1 h
      exact ⟨hr.next, fun tag _ _ hcell => by cases hcell; exact hr.tag _ _ _ hstage, hr.cells⟩
  · cases h
    exact hr

/-- All cells that are read have places that are counted from 1. -/
theorem placed_of_read? {kept : σ} {events : List Xml.Event} {cells : List (CellRef × α)}
    (h : reader.read? kept blank events = some cells) : ∀ c ∈ cells, Placed c.1 := by
  have hrun : ∀ (events : List Xml.Event) (r r' : Reading σ α), r.Sound →
      events.foldlM (reader.readEvent? blank) r = some r' → r'.Sound := by
    intro events
    induction events with
    | nil =>
      rintro r r' hr ⟨⟩
      exact hr
    | cons e events ih =>
      intro r r' hr hfold
      rw [List.foldlM_cons] at hfold
      obtain ⟨r₁, hstep, hfold⟩ := Option.bind_eq_some_iff.1 hfold
      exact ih r₁ r' (readEvent?_sound hr hstep) hfold
  have hstart : Reading.Sound ({ kept } : Reading σ α) :=
    ⟨⟨Nat.one_pos, Nat.one_pos⟩, fun _ _ _ hcell => (nomatch hcell), fun _ hc => nomatch hc⟩
  unfold read? at h
  split at h
  · cases h
  · rename_i r hfold
    have hr := hrun events _ r hstart hfold
    split at h
    · cases h
      exact fun c hc => hr.cells c (List.mem_reverse.1 hc)
    · cases h
      exact fun c hc => nomatch hc
    · cases h

/-! ## Mapped values -/

def Stage.map (f : α → β) : Stage α → Stage β
  | .front other => .front other
  | .rows => .rows
  | .cell tag value child => .cell tag (f value) child
  | .done => .done

def Reading.map (f : α → β) (r : Reading σ α) : Reading σ β where
  stage := r.stage.map f
  row := r.row
  column := r.column
  kept := r.kept
  cells := r.cells.map fun c => (c.1, f c.2)

section map
variable {other : CellReader σ β} {f : α → β}

private theorem openFront?_map (r : Reading σ α) (name : String) (raw : List Char) :
    openFront? (r.map f) name raw = (openFront? r name raw).map (Reading.map f) := by
  unfold openFront?
  split
  · split
    · cases Package.corners? _ <;> rfl
    · rfl
  · rfl
  · rfl

private theorem openRow?_map (r : Reading σ α) (name : String) (raw : List Char) :
    openRow? (f blank) (r.map f) name raw = (openRow? blank r name raw).map (Reading.map f) := by
  unfold openRow?
  dsimp only
  split
  · split
    · rfl
    · rfl
    · cases Package.rowAndColumn? _ <;> rfl
  · split
    · rfl
    · rfl
    · cases Package.cellRef? _ <;> rfl
  · rfl

private theorem readEvent?_map (hchild : other.child? = reader.child?)
    (htake : ∀ kept tag attributes content value,
      other.take? kept tag attributes content (f value) =
        (reader.take? kept tag attributes content value).map fun p => (p.1, f p.2))
    (r : Reading σ α) (e : Xml.Event) :
    other.readEvent? (f blank) (r.map f) e = (reader.readEvent? blank r e).map (Reading.map f) := by
  obtain ⟨stage, row, column, kept, cells⟩ := r
  cases stage with
  | front o =>
    cases e with
    | opening name raw => exact openFront?_map ..
    | _ => rfl
  | rows =>
    cases e with
    | opening name raw => exact openRow?_map ..
    | closing name =>
      simp only [readEvent?, Reading.map, Stage.map]
      split <;> rfl
    | _ => rfl
  | cell tag value child =>
    cases child with
    | none =>
      cases e with
      | opening name raw =>
        simp only [readEvent?, Reading.map, Stage.map, hchild]
        cases reader.child? name <;> rfl
      | closing name =>
        simp only [readEvent?, Reading.map, Stage.map]
        split <;> rfl
      | _ => rfl
    | some inside =>
      obtain ⟨attributes, child⟩ := inside
      cases e with
      | broken => rfl
      | _ =>
        simp only [readEvent?, Reading.map, Stage.map]
        split
        · rfl
        · rfl
        · rw [htake]
          cases reader.take? kept tag attributes _ value <;> rfl
  | done => rfl

/-- A reader whose values are another's, mapped, reads the other's cells, mapped. -/
theorem read?_map (blank : α) (hchild : other.child? = reader.child?)
    (htake : ∀ kept tag attributes content value,
      other.take? kept tag attributes content (f value) =
        (reader.take? kept tag attributes content value).map fun p => (p.1, f p.2))
    (kept : σ) (events : List Xml.Event) :
    other.read? kept (f blank) events =
      (reader.read? kept blank events).map (List.map fun c => (c.1, f c.2)) := by
  have hrun (r : Reading σ α) : events.foldlM (other.readEvent? (f blank)) (r.map f) =
      (events.foldlM (reader.readEvent? blank) r).map (Reading.map f) := by
    induction events generalizing r with
    | nil => rfl
    | cons e events ih =>
      rw [List.foldlM_cons, List.foldlM_cons, readEvent?_map hchild htake]
      cases reader.readEvent? blank r e with
      | none => rfl
      | some r => exact ih r
  unfold read?
  rw [show ({ kept } : Reading σ β) = Reading.map f ({ kept } : Reading σ α) from rfl, hrun]
  cases events.foldlM (reader.readEvent? blank) { kept } with
  | none => rfl
  | some r =>
    obtain ⟨stage, row, column, kept, cells⟩ := r
    cases stage with
    | front o => cases o <;> rfl
    | done =>
      simp only [Option.map_some, Reading.map, Stage.map, List.map_reverse]
    | _ => rfl

end map

end CellReader

/-! ## Stored values -/

def StoredValue.shown (v : StoredValue) : CellValue :=
  v.shown?.getD .empty

def NumberKind.stored (kind : NumberKind) (x : Binary64) : StoredValue :=
  match kind with
  | number => .number x
  | duration => .serial x true
  | date => .serial x false

theorem NumberKind.shown_stored (kind : NumberKind) (x : Binary64) :
    (kind.stored x).shown = kind.value x := by
  cases kind with
  | number => rfl
  | duration =>
    rw [stored, StoredValue.shown, StoredValue.shown?]
    cases Serial.toDateTime? x <;> rfl
  | date =>
    rw [stored, value, StoredValue.shown, StoredValue.shown?]
    cases Serial.toDateTime? x <;> rfl

namespace Shelf

def stored? (s : Shelf) (attributes : List Xml.Attribute) (text : String) : Option StoredValue :=
  match Package.rawAttribute? "t" attributes with
  | none => none
  | some none =>
    match Binary64.ofText? text with
    | some x => some ((s.kind attributes).stored x)
    | none => some (.text text)
  | some (some type) =>
    match String.ofList type with
    | "s" => s.texts[index text.toList]?.map .text
    | "b" => some (.bool (text ≠ "0"))
    | "e" => if calculationErrors.contains text then some (.error text) else none
    | "d" => some (.isoDate text)
    | "str" => some (.text text)
    | "n" =>
      if text.isEmpty then some .empty
      else (Binary64.ofText? text).map (s.kind attributes).stored
    | _ => none

/-- The value that is read is the one that is shown for what the cell stores. -/
theorem value?_eq (s : Shelf) (attributes : List Xml.Attribute) (text : String) :
    s.value? attributes text = (s.stored? attributes text).map StoredValue.shown := by
  unfold value? stored?
  rcases Package.rawAttribute? "t" attributes with _ | _ | type
  · rfl
  · cases Binary64.ofText? text with
    | none => rfl
    | some x => simp [NumberKind.shown_stored]
  · simp only
    generalize String.ofList type = t
    split
    · cases s.texts[index text.toList]? <;> rfl
    · rfl
    · split <;> rfl
    · simp only [Option.map_some, StoredValue.shown, StoredValue.shown?]
      cases Iso.read? text <;> rfl
    · rfl
    · split
      · rfl
      · cases Binary64.ofText? text with
        | none => rfl
        | some x => simp [NumberKind.shown_stored]
    · simp

def storedContent? (s : Shelf) (tag : CellTag) : Content → Option StoredValue
  | .plain text => s.stored? tag.attributes text
  | .rich (some text) => some (.text text)
  | .rich none => some .empty
  | .skipped => some .empty

def storedReader (s : Shelf) : CellReader Unit StoredValue where
  child? := child?
  take? := fun _ tag _ content _ => (s.storedContent? tag content).map ((), ·)

def storedCells? (s : Shelf) (events : List Xml.Event) : Option (List (CellRef × StoredValue)) :=
  (s.storedReader.read? () .empty events).map fun cells =>
    withinRows (cells.filter fun c => c.2 ≠ .empty)

end Shelf

private theorem StoredValue.shown?_eq_some {v : StoredValue} (h : v ≠ .empty) :
    v.shown? = some v.shown := by
  obtain ⟨value, hvalue⟩ := Option.isSome_iff_exists.1 (v.isSome_shown?.2 h)
  rw [shown, hvalue, Option.getD_some]

/-- Nothing but an empty value is shown as one. -/
theorem StoredValue.shown_eq_empty {v : StoredValue} : v.shown = .empty ↔ v = .empty := by
  cases v with
  | serial x isDuration =>
    cases h : Serial.toDateTime? x <;> cases isDuration <;> simp [shown, shown?, h]
  | isoDate s => cases h : Iso.read? s <;> simp [shown, shown?, h]
  | _ => simp [shown, shown?]

private theorem withinRows_map {α β : Type} (f : α → β) (cells : List (CellRef × α)) :
    withinRows (cells.map fun c => (c.1, f c.2)) =
      (withinRows cells).map fun c => (c.1, f c.2) := by
  unfold withinRows
  rw [List.head?_map, List.getLast?_map]
  cases cells.head? with
  | none => rfl
  | some first =>
    cases cells.getLast? with
    | none => rfl
    | some last => exact List.filter_map

theorem mem_of_mem_withinRows {α : Type} {cells : List (CellRef × α)} {c : CellRef × α}
    (h : c ∈ withinRows cells) : c ∈ cells := by
  unfold withinRows at h
  split at h
  · exact (List.mem_filter.1 h).1
  · cases h

namespace Shelf

private theorem of_mem_storedCells? {s : Shelf} {events : List Xml.Event}
    {values : List (CellRef × StoredValue)} (h : s.storedCells? events = some values) :
    ∀ c ∈ values, Placed c.1 ∧ c.2.shown? = some c.2.shown := by
  obtain ⟨cells, hread, rfl⟩ := Option.map_eq_some_iff.1 h
  intro c hc
  obtain ⟨hcell, hstored⟩ := List.mem_filter.1 (mem_of_mem_withinRows hc)
  exact ⟨CellReader.placed_of_read? hread c hcell,
    StoredValue.shown?_eq_some (of_decide_eq_true hstored)⟩

/-- The values that are read are those that are shown for what the cells store. -/
theorem values?_eq (s : Shelf) (events : List Xml.Event) :
    s.values? events = (s.storedCells? events).map (List.map fun c => (c.1, c.2.shown)) := by
  have hchild : s.reader.child? = s.storedReader.child? := rfl
  have htake (kept : Unit) (tag : CellTag) (attributes : List Xml.Attribute) (content : Content)
      (value : StoredValue) : s.reader.take? kept tag attributes content value.shown =
        (s.storedReader.take? kept tag attributes content value).map fun p => (p.1, p.2.shown) := by
    cases content with
    | plain text =>
      show (s.value? tag.attributes text).map _ = ((s.stored? tag.attributes text).map _).map _
      rw [value?_eq, Option.map_map, Option.map_map]
      rfl
    | rich text => cases text <;> rfl
    | skipped => rfl
  have hread := CellReader.read?_map .empty hchild htake () events
  have hkept : (fun c : CellRef × CellValue => decide (c.2 ≠ .empty)) ∘
      (fun c : CellRef × StoredValue => (c.1, c.2.shown)) = fun c => decide (c.2 ≠ .empty) := by
    funext c
    simp [StoredValue.shown_eq_empty]
  rw [values?, storedCells?, show (CellValue.empty) = StoredValue.shown .empty from rfl, hread]
  cases s.storedReader.read? () .empty events with
  | none => rfl
  | some cells =>
    rw [Option.map_some, Option.map_some, Option.map_some, Option.map_some, ← withinRows_map,
      List.filter_map, ← hkept]
    rfl

end Shelf

/-! ## Formulas and regions -/

def StoredRegion.ofRange (r : Range) : StoredRegion :=
  ⟨(r.top - 1, r.left - 1), (r.bottom - 1, r.right - 1)⟩

namespace SharedFormulas

/-- The formulas that are read have places that are counted from 1, and are not empty. -/
theorem of_mem_ofEvents? {events : List Xml.Event} {formulas : List (CellRef × String)}
    (h : ofEvents? events = some formulas) :
    ∀ c ∈ formulas, Placed c.1 ∧ formulaText? c.2 = some c.2 := by
  obtain ⟨cells, hread, rfl⟩ := Option.map_eq_some_iff.1 h
  intro c hc
  obtain ⟨⟨place, formula⟩, hcell, hc⟩ := List.mem_filterMap.1 (mem_of_mem_withinRows hc)
  obtain ⟨text, htext, rfl⟩ := Option.map_eq_some_iff.1 hc
  have hsome := (Option.filter_eq_some_iff.1 htext).2
  exact ⟨CellReader.placed_of_read? hread _ hcell, by simp_all [formulaText?]⟩

end SharedFormulas

namespace StoredMerge

/-- The corners of a region that is read are counted from 1. -/
theorem placed_of_corners? {name : String} {raw : List Char} {a b : CellRef}
    (h : corners? name raw = some (some (a, b))) : Placed a ∧ Placed b := by
  unfold corners? at h
  split at h
  · split at h
    · cases h
    · cases h
    · obtain ⟨_, hread, hab⟩ := Option.map_eq_some_iff.1 h
      cases hab
      exact Package.corners?_placed hread
  · cases h

private theorem range_ofRange_ofCorners {a b : CellRef} (ha : Placed a) (hb : Placed b) :
    (StoredRegion.ofRange (Range.ofCorners a b)).range = Range.ofCorners a b := by
  obtain ⟨harow, hacolumn⟩ := ha
  obtain ⟨hbrow, hbcolumn⟩ := hb
  refine Range.eq_of_bounds ?_ ?_ ?_ ?_ <;>
    simp only [StoredRegion.range, StoredRegion.ofRange, Range.ofCorners] <;> omega

private theorem range_ofRange_of_untilEnd? {events : List Xml.Event} {rs : List Range}
    (h : untilEnd? events = some rs) : ∀ r ∈ rs, (StoredRegion.ofRange r).range = r := by
  induction events generalizing rs with
  | nil => cases h
  | cons e events ih =>
    cases e with
    | opening name raw =>
      rw [untilEnd?] at h
      split at h
      · cases h
      · exact ih h
      · rename_i hcorners
        obtain ⟨rest, hrest, rfl⟩ := Option.map_eq_some_iff.1 h
        obtain ⟨ha, hb⟩ := placed_of_corners? hcorners
        exact List.forall_mem_cons.2 ⟨range_ofRange_ofCorners ha hb, ih hrest⟩
    | closing name =>
      rw [untilEnd?] at h
      split at h
      · cases h
        exact fun r hr => nomatch hr
      · exact ih h
    | broken => cases h
    | _ => exact ih h

/-- Counted from 0, the corners of the regions of a part name them. -/
theorem map_range_ofEvents (events : List Xml.Event) :
    ((ofEvents events).map StoredRegion.ofRange).map StoredRegion.range = ofEvents events := by
  have hregions : ∀ r ∈ ofEvents events, (StoredRegion.ofRange r).range = r := by
    induction events with
    | nil => exact fun r hr => nomatch hr
    | cons e events ih =>
      cases e with
      | opening name raw =>
        rw [ofEvents]
        split
        · cases hread : untilEnd? events with
          | none => exact fun r hr => nomatch hr
          | some rs => exact range_ofRange_of_untilEnd? hread
        · exact ih
      | _ => exact ih
  rw [List.map_map]
  exact (List.map_congr_left hregions).trans (List.map_id _)

end StoredMerge

/-- What a worksheet part says about its cells, apart from their looks. -/
structure SheetSources where
  values : Area StoredValue
  formulas : Area String
  regions : List StoredRegion

/-- The sheet with a name that the sources and a look make. -/
def SheetSources.imported (sources : SheetSources) (name : String) (look : SheetLook) : Sheet :=
  Sheet.imported name sources.values sources.formulas sources.regions look

namespace Package

/-- The areas of the part of a sheet, if its values can be read. Formulas that cannot be read are
left out. -/
def sources? (p : Package) (shelf : Shelf) (entries : List SheetEntry) (name : String) :
    Option SheetSources :=
  ((partOf? entries name).bind p.tolerantEvents?).bind fun events =>
    (shelf.storedCells? events).map fun values =>
      { values := Area.ofCells .empty values
        formulas := Area.ofCells "" ((SharedFormulas.ofEvents? events).getD [])
        regions := (StoredMerge.ofEvents events).map StoredRegion.ofRange }

/-- The sheet that a part makes is the one that the part's areas are put into. -/
theorem sheet?_eq_imported (p : Package) (shelf : Shelf) (entries : List SheetEntry)
    (name : String) (look : SheetLook) : p.sheet? shelf entries name look =
      (p.sources? shelf entries name).map fun sources => sources.imported name look := by
  rw [sheet?, sources?]
  cases (partOf? entries name).bind p.tolerantEvents? with
  | none => rfl
  | some events =>
    simp only [Option.bind_eq_bind, Option.bind_some, Shelf.values?_eq]
    cases hvalues : shelf.storedCells? events with
    | none => rfl
    | some values =>
      have hstored := Shelf.of_mem_storedCells? hvalues
      have hformulas : ∀ c ∈ (SharedFormulas.ofEvents? events).getD [],
          Placed c.1 ∧ formulaText? c.2 = some c.2 := by
        cases hread : SharedFormulas.ofEvents? events with
        | none => exact fun c hc => absurd hc List.not_mem_nil
        | some formulas => exact SharedFormulas.of_mem_ofEvents? hread
      rw [Option.map_some, Option.map_some, Option.bind_some, Option.map_some,
        SheetSources.imported, Sheet.imported_eq_overlay, StoredMerge.map_range_ofEvents,
        Area.table_ofCells (fun c hc => (hstored c hc).1) rfl fun c hc => (hstored c hc).2,
        Area.table_ofCells (g := id) (fun c hc => (hformulas c hc).1) rfl
          fun c hc => (hformulas c hc).2]
      simp

end Package

namespace Sheet

/-- Putting in the sources one after the other lays them over each other, and the sheet shows what
the sources say. Each sheet of a package is made so from the areas of its part. -/
theorem imported_laidOver (name : String) (look : SheetLook) :
    (∀ (values : Area StoredValue) (formulas : Area String) (regions : List StoredRegion),
      imported name values formulas regions look =
          overlay name (values.table StoredValue.shown?) (formulas.table formulaText?)
            (regions.map StoredRegion.range) look ∧
        LaidOver (imported name values formulas regions look) name values formulas regions look) ∧
    ∀ (p : Package) (shelf : Shelf) (entries : List SheetEntry),
      p.sheet? shelf entries name look =
        (p.sources? shelf entries name).map fun sources => sources.imported name look :=
  ⟨fun _ _ _ => ⟨imported_eq_overlay .., laidOver_imported ..⟩,
    fun p shelf entries => p.sheet?_eq_imported shelf entries name look⟩

/-- Values in the rows 2 and 3 from column B on, formulas in row 3 from column A on, and regions
with their corners in either order. -/
def shiftedSources : SheetSources where
  values := ⟨1, 1, 2, 3, [.whole 1, .empty, .serial (.ofInt 1) false, .text "x", .bool true,
    .isoDate "2024-02-29"], rfl⟩
  formulas := ⟨2, 0, 1, 3, ["=B2*2", "", "SUM(B2)"], rfl⟩
  regions := [⟨(4, 3), (2, 1)⟩, ⟨(0, 0), (0, 0)⟩, ⟨(2, 1), (4, 3)⟩, ⟨(6, 0), (6, 1)⟩]

/-- Looks of a cell without a value and of a formula. -/
def shiftedLook : SheetLook where
  cells := Table.ofList [(⟨1, 1⟩, { protection := some {} }), (⟨3, 3⟩, { style := some {} })]
  widths := Table.empty

theorem shiftedSources_laidOver :
    LaidOver (shiftedSources.imported "Data" shiftedLook) "Data" shiftedSources.values
        shiftedSources.formulas shiftedSources.regions shiftedLook ∧
      (shiftedSources.imported "Data" shiftedLook).cells.entries =
        [(⟨1, 1⟩, ⟨.empty, { protection := some {} }⟩), (⟨2, 2⟩, ⟨.number (.ofInt 1), {}⟩),
          (⟨2, 4⟩, ⟨.date ⟨⟨1899, 12, 31, by decide⟩, .midnight⟩, {}⟩),
          (⟨3, 1⟩, ⟨.formula "B2*2", {}⟩), (⟨3, 2⟩, ⟨.text "x", {}⟩),
          (⟨3, 3⟩, ⟨.formula "SUM(B2)", { style := some {} }⟩),
          (⟨3, 4⟩, ⟨.date ⟨⟨2024, 2, 29, by decide⟩, .midnight⟩, {}⟩)] ∧
      (shiftedSources.imported "Data" shiftedLook).mergeTexts = ["B3:D5", "A7:B7"] :=
  ⟨((imported_laidOver "Data" shiftedLook).1 _ _ _).2, by decide +kernel, by decide +kernel⟩

end Sheet

end SheetTemplate
