import SheetTemplate.Proofs.Package.SheetLook
import SheetTemplate.Proofs.Xml.TextTree
/-!
The reader of a worksheet's look agrees with the tree of the part: it makes the edits of the tree's
elements in the order of the document. A validation is read in between; its formulas are the texts
that stand directly in the elements for them.
-/
namespace SheetTemplate.SheetLook
open Xml

def outerNames : List String :=
  ["dataValidation", "c", "col"]

theorem ne_of_not_outer {name : String} (h : name ∉ outerNames) :
    name ≠ "dataValidation" ∧ name ≠ "c" ∧ name ≠ "col" := by
  simpa [outerNames] using h

def Slot.ofName? : String → Option Slot
  | "formula1" => some .first
  | "formula2" => some .second
  | _ => none

/-- What stands in an element for a validation: no other validation, no cell and no column, and in
its formulas no text behind an element. -/
structure IsPlainValidation (e : Branch) : Prop where
  inner : ∀ b ∈ branchesOfAll e.children, b.name ∉ outerNames
  formulas : ∀ b ∈ branchesOfAll e.children, (Slot.ofName? b.name).isSome → TextsFirst b.children

instance (e : Branch) : Decidable (IsPlainValidation e) :=
  decidable_of_iff ((∀ b ∈ branchesOfAll e.children, b.name ∉ outerNames) ∧
      ∀ b ∈ branchesOfAll e.children, (Slot.ofName? b.name).isSome → TextsFirst b.children)
    ⟨fun ⟨hinner, hformulas⟩ => ⟨hinner, hformulas⟩, fun h => ⟨h.inner, h.formulas⟩⟩

/-- The texts of one formula among the trees, given the formula that the trees stand in. -/
def formulaTexts (slot : Slot) (inside : Option Slot) (nodes : List Node) : List String :=
  (if inside = some slot then textsOf nodes else [])
    ++ (branchesOfAll nodes).flatMap fun b =>
      if Slot.ofName? b.name = some slot then textsOf b.children else []

/-- The validation that an element stores. Of several texts for a formula the last one counts. -/
def storedIn (e : Branch) : StoredValidation where
  fields := e.fields
  first := (formulaTexts .first none e.children).getLast?
  second := (formulaTexts .second none e.children).getLast?

def editsOf (formats : Array Presentation) (e : Branch) : List (CellRef × LookEdit) :=
  if e.name = "c" then cellFormat formats e.fields
  else if e.name = "dataValidation" then spread (storedIn e)
  else []

def widthsOf (e : Branch) : List (Nat × Binary64) :=
  if e.name = "col" then columns e.fields else []

def afterAll (formats : Array Presentation) (r : Reading) (es : List Branch) : Reading :=
  { r with
    edits := (es.flatMap (editsOf formats)).reverse ++ r.edits
    widths := (es.flatMap widthsOf).reverse ++ r.widths }

/-! ### Formulas -/

def filled (v : StoredValidation) (inside : Option Slot) (nodes : List Node) : StoredValidation :=
  { v with
    first := (formulaTexts .first inside nodes).getLast?.or v.first
    second := (formulaTexts .second inside nodes).getLast?.or v.second }

section formulas
variable {slot : Slot} {inside : Option Slot} {nodes : List Node}

theorem formulaTexts_nil (slot : Slot) (inside : Option Slot) :
    formulaTexts slot inside [] = [] := by
  unfold formulaTexts
  split <;> rfl

theorem formulaTexts_text (slot : Slot) (inside : Option Slot) (s : String) (nodes : List Node) :
    formulaTexts slot inside (.text s :: nodes) =
      (if inside = some slot then [s] else []) ++ formulaTexts slot inside nodes := by
  unfold formulaTexts
  split <;> rfl

private theorem formulaTexts_empty (slot : Slot) (inside : Option Slot) (name : String)
    (fields : Fields)
    (nodes : List Node) :
    formulaTexts slot inside (.element name fields [] :: nodes) =
      formulaTexts slot inside nodes := by
  have hnone : (if Slot.ofName? name = some slot then textsOf [] else []) = [] := by
    split <;> rfl
  rw [formulaTexts, branchesOfAll, Node.branches, branchesOfAll, List.cons_append,
    List.flatMap_cons, hnone]
  rfl

/-- Behind an element no text of a formula stands directly. -/
theorem formulaTexts_element {name : String} {fields : Fields} {children : List Node}
    (h : inside = none ∨ TextsFirst (.element name fields children :: nodes)) (slot : Slot) :
    formulaTexts slot inside (.element name fields children :: nodes) =
      formulaTexts slot (Slot.ofName? name) children ++ formulaTexts slot none nodes := by
  have hdirect : (if inside = some slot then textsOf (.element name fields children :: nodes)
      else []) = [] := by
    split
    · rename_i hinside
      rcases h with hnone | hfirst
      · rw [hnone] at hinside
        cases hinside
      · exact textsOf_element hfirst
    · rfl
  rw [formulaTexts, hdirect, branchesOfAll, Node.branches, List.cons_append, List.flatMap_cons,
    List.flatMap_append, formulaTexts, formulaTexts, List.append_assoc]
  rfl

private theorem filled_nil (v : StoredValidation) (inside : Option Slot) :
    filled v inside [] = v := by
  simp only [filled, formulaTexts_nil, List.getLast?_nil, Option.none_or]

private theorem filled_text_of_none (v : StoredValidation) (s : String) (nodes : List Node) :
    filled v none (.text s :: nodes) = filled v none nodes := by
  simp only [filled, formulaTexts_text, reduceCtorEq, if_false, List.nil_append]

private theorem filled_text_of_some (v : StoredValidation) (slot : Slot) (s : String)
    (nodes : List Node) :
    filled v (some slot) (.text s :: nodes) =
      filled (slot.put (some s) v) (some slot) nodes := by
  cases slot <;>
    simp [filled, formulaTexts_text, Slot.put, List.getLast?_cons]

private theorem filled_empty (v : StoredValidation) (inside : Option Slot) (name : String)
    (fields : Fields) (nodes : List Node) :
    filled v inside (.element name fields [] :: nodes) = filled v inside nodes := by
  simp only [filled, formulaTexts_empty]

private theorem filled_element {name : String} {fields : Fields} {children : List Node}
    (h : inside = none ∨ TextsFirst (.element name fields children :: nodes))
    (v : StoredValidation) :
    filled v inside (.element name fields children :: nodes) =
      filled (filled v (Slot.ofName? name) children) none nodes := by
  simp only [filled, formulaTexts_element h, List.getLast?_append, Option.or_assoc]

end formulas

/-! ### Inside a validation -/

section inside
variable {formats : Array Presentation} {r : Reading} {v : StoredValidation}

private theorem readEvent_opening_inside (hv : r.validation = some v) {name : String}
    (hname : localName name ∉ outerNames) (raw : List Char) :
    readEvent formats r (.opening name raw) =
      pure { r with slot := Slot.ofName? (localName name) } := by
  obtain ⟨hvalidation, hc, hcol⟩ := ne_of_not_outer hname
  simp only [readEvent, readTag, Bool.not_true, Bool.false_eq_true, if_false, hvalidation, hv,
    Option.isSome_some, if_true]
  rfl

private theorem readEvent_selfClosing_inside {name : String} (hname : localName name ∉ outerNames)
    (raw : List Char) : readEvent formats r (.selfClosing name raw) = pure r := by
  obtain ⟨-, hc, hcol⟩ := ne_of_not_outer hname
  simp only [readEvent, readTag, Bool.not_false, if_true]
  rfl

private theorem readEvent_text_outside (formats : Array Presentation)
    (hv : r.validation = some v) (hslot : r.slot = none) (raw : List Char) :
    readEvent formats r (.text raw) = pure r := by
  simp only [readEvent, readText, hv, hslot]
  rfl

private theorem readEvent_text_inside (formats : Array Presentation)
    (hv : r.validation = some v) {own : Slot} (hslot : r.slot = some own) {raw : List Char}
    {s : String} (hraw : unescape? raw = some s) :
    readEvent formats r (.text raw) = pure { r with validation := some (own.put (some s) v) } := by
  simp only [readEvent, readText, hv, hslot, hraw]
  cases own <;> rfl

private theorem Slot.ofName?_eq_none {name : String} (hfirst : name ≠ "formula1")
    (hsecond : name ≠ "formula2") : Slot.ofName? name = none := by
  unfold Slot.ofName?
  split
  · exact absurd rfl hfirst
  · exact absurd rfl hsecond
  · rfl

/-- Behind the closing tag of an element the reader is in no formula. -/
theorem readEvent_closing_inside {name : String} (hname : localName name ≠ "dataValidation")
    (hslot : r.slot = none ∨ r.slot = Slot.ofName? (localName name)) :
    readEvent formats r (.closing name) = pure { r with slot := none } := by
  simp only [readEvent]
  unfold readClosing
  split
  · rfl
  · rfl
  · rename_i h
    exact absurd h hname
  · rename_i hfirst hsecond _
    have hnone : r.slot = none := by
      rw [Slot.ofName?_eq_none hfirst hsecond, or_self] at hslot
      exact hslot
    rw [← hnone]
    rfl

/-- What stands in a validation fills its formulas and leaves everything else. At the end the reader
is in no formula, or in the same one. -/
theorem foldlM_inside (formats : Array Presentation) {nodes : List Node} {events : List Event}
    (h : Reads nodes events)
    (hnames : ∀ b ∈ branchesOfAll nodes, b.name ∉ outerNames)
    (hformulas : ∀ b ∈ branchesOfAll nodes, (Slot.ofName? b.name).isSome → TextsFirst b.children)
    {r : Reading} {v : StoredValidation} (hv : r.validation = some v)
    (hslot : r.slot = none ∨ TextsFirst nodes) :
    ∃ slot, (slot = none ∨ slot = r.slot) ∧ events.foldlM (readEvent formats) r =
      pure { r with validation := some (filled v r.slot nodes), slot } := by
  induction h generalizing r v with
  | nil =>
    refine ⟨r.slot, Or.inr rfl, ?_⟩
    rw [filled_nil, ← hv]
    rfl
  | @text raw s nodes events hraw h ih =>
    cases hs : r.slot with
    | none =>
      have hread := readEvent_text_outside formats hv hs raw
      obtain ⟨slot, hsame, hfold⟩ := ih hnames hformulas hv (Or.inl hs)
      rw [hs] at hsame hfold
      exact ⟨slot, hsame, by rw [foldlM_cons_of_eq_pure hread, hfold, filled_text_of_none]⟩
    | some own =>
      have hread := readEvent_text_inside formats hv hs hraw
      have hrest : TextsFirst nodes := by
        rw [hs] at hslot
        exact (List.pairwise_cons.1 (hslot.resolve_left (Option.some_ne_none own))).2
      obtain ⟨slot, hsame, hfold⟩ := ih hnames hformulas
        (r := { r with validation := some (own.put (some s) v) }) rfl (Or.inr hrest)
      simp only [hs] at hread hsame hfold
      exact ⟨slot, hsame, by rw [foldlM_cons_of_eq_pure hread, hfold, filled_text_of_some]⟩
  | other h ih => exact ih hnames hformulas hv hslot
  | @empty name raw fields nodes events hfields h ih =>
    obtain ⟨hname, hnames⟩ := List.forall_mem_cons.1 hnames
    obtain ⟨-, hformulas⟩ := List.forall_mem_cons.1 hformulas
    have hrest : r.slot = none ∨ TextsFirst nodes :=
      hslot.imp_right fun hfirst => (List.pairwise_cons.1 hfirst).2
    obtain ⟨slot, hsame, hfold⟩ := ih hnames hformulas hv hrest
    refine ⟨slot, hsame, ?_⟩
    rw [foldlM_cons_of_eq_pure (readEvent_selfClosing_inside hname raw), hfold, filled_empty]
  | @element name raw fields children nodes inner events hfields hchildren h ihchildren ih =>
    rw [branchesOfAll, Node.branches, List.cons_append] at hnames hformulas
    obtain ⟨hname, hnames⟩ := List.forall_mem_cons.1 hnames
    obtain ⟨hformula, hformulas⟩ := List.forall_mem_cons.1 hformulas
    obtain ⟨hinner, hrest⟩ := List.forall_mem_append.1 hnames
    obtain ⟨hformulas, hformulas'⟩ := List.forall_mem_append.1 hformulas
    have hvalidation : localName name ≠ "dataValidation" := (ne_of_not_outer hname).1
    have hfirst : Slot.ofName? (localName name) = none ∨ TextsFirst children := by
      cases hown : Slot.ofName? (localName name) with
      | none => exact Or.inl rfl
      | some own => exact Or.inr (hformula (by rw [hown]; rfl))
    obtain ⟨slot, hsame, hfold⟩ := ihchildren hinner hformulas
      (r := { r with slot := Slot.ofName? (localName name) }) hv hfirst
    obtain ⟨slot', hsame', hfold'⟩ := ih hrest hformulas'
      (r := { r with
        validation := some (filled v (Slot.ofName? (localName name)) children)
        slot := none }) rfl (Or.inl rfl)
    refine ⟨slot', Or.inl (or_self_iff.1 hsame'), ?_⟩
    rw [foldlM_cons_of_eq_pure (readEvent_opening_inside hv hname raw),
      foldlM_append_of_eq_pure hfold,
      foldlM_cons_of_eq_pure (readEvent_closing_inside hvalidation hsame), hfold',
      filled_element hslot]

end inside

/-! ### Between validations -/

section outside
variable {formats : Array Presentation} {r : Reading}

theorem afterAll_append (formats : Array Presentation) (r : Reading) (es es' : List Branch) :
    afterAll formats r (es ++ es') = afterAll formats (afterAll formats r es) es' := by
  simp only [afterAll, List.flatMap_append, List.reverse_append, List.append_assoc]

private theorem afterAll_cons (formats : Array Presentation) (r : Reading) (e : Branch)
    (es : List Branch) :
    afterAll formats r (e :: es) = afterAll formats (afterAll formats r [e]) es :=
  afterAll_append formats r [e] es

/-- Edits of a tag come in any order, since there is at most one. -/
theorem reverse_cellFormat (formats : Array Presentation) (fields : Fields) :
    (cellFormat formats fields).reverse = cellFormat formats fields := by
  unfold cellFormat
  split
  · split <;> rfl
  · rfl

/-- A validation without formulas is none. -/
theorem spread_storedIn_leaf (name : String) (fields : Fields) :
    spread (storedIn ⟨name, fields, []⟩) = [] := by
  have hnone : (storedIn ⟨name, fields, []⟩).validation? = none := by
    have hrule : (storedIn ⟨name, fields, []⟩).rule? = none := by
      simp only [StoredValidation.rule?, storedIn, formulaTexts_nil, List.getLast?_nil,
        Option.map_none]
      split
      · rename_i hfirst
        cases hfirst
      · rfl
    rw [StoredValidation.validation?, hrule, Option.map_none]
  rw [spread, hnone]

/-- A tag is read for what it says, unless it begins a validation. -/
theorem readTag_outside {raw : List Char} {fields : Fields} (hfields : fields? raw = some fields)
    (hvalidation : r.validation = none) {opens : Bool} {name : String} {children : List Node}
    (h : name = "dataValidation" → opens = false ∧ children = []) :
    readTag formats r opens name raw = pure (afterAll formats r [⟨name, fields, children⟩]) := by
  have hread : fieldsOf raw = .ok fields := by rw [fieldsOf, hfields]
  unfold readTag
  split
  · rw [hread]
    simp [afterAll, editsOf, widthsOf, Except.map, pure, Except.pure]
  · rw [hread]
    simp [afterAll, editsOf, widthsOf, reverse_cellFormat, Except.map, pure, Except.pure]
  · rename_i hcol hc
    have hcol' : ¬name = "col" := hcol
    have hc' : ¬name = "c" := hc
    have hsame : afterAll formats r [⟨name, fields, children⟩] = r := by
      by_cases hname : name = "dataValidation"
      · obtain ⟨-, rfl⟩ := h hname
        simp [afterAll, editsOf, widthsOf, hcol', hc', spread_storedIn_leaf]
      · simp [afterAll, editsOf, widthsOf, hcol', hc', hname]
    rw [hsame]
    cases opens with
    | false => rfl
    | true =>
      have hname : name ≠ "dataValidation" := fun hname => Bool.noConfusion (h hname).1
      simp only [Bool.not_true, Bool.false_eq_true, if_false, hname, hvalidation,
        Option.isSome_none]
      rfl

/-- Outside validations a closing tag does nothing. -/
theorem readEvent_closing_outside (formats : Array Presentation) (hvalidation : r.validation = none)
    (hslot : r.slot = none) (name : String) : readEvent formats r (.closing name) = pure r := by
  simp only [readEvent]
  unfold readClosing
  split
  · rw [← hslot]
    rfl
  · rw [← hslot]
    rfl
  · rw [hvalidation]
    rfl
  · rfl

private theorem filled_none (fields : Fields) (name : String) (children : List Node) :
    filled { fields } none children = storedIn ⟨name, fields, children⟩ := by
  simp only [filled, storedIn, Option.or_none]

private theorem afterAll_inner {es : List Branch} (h : ∀ e ∈ es, e.name ∉ outerNames)
    (r : Reading) :
    afterAll formats r es = r := by
  have hedits : es.flatMap (editsOf formats) = [] := by
    refine List.flatMap_eq_nil_iff.2 fun e he => ?_
    obtain ⟨hvalidation, hc, -⟩ := ne_of_not_outer (h e he)
    rw [editsOf, if_neg hc, if_neg hvalidation]
  have hwidths : es.flatMap widthsOf = [] := by
    refine List.flatMap_eq_nil_iff.2 fun e he => ?_
    exact if_neg (ne_of_not_outer (h e he)).2.2
  rw [afterAll, hedits, hwidths]
  rfl

/-- An element for a validation is read as a whole. -/
theorem foldlM_validation {name : String} {raw : List Char} {fields : Fields}
    {children : List Node} {inner : List Event} (hname : localName name = "dataValidation")
    (hfields : fields? raw = some fields) (hchildren : Reads children inner)
    (hplain : IsPlainValidation ⟨localName name, fields, children⟩)
    (hvalidation : r.validation = none) (hslot : r.slot = none) :
    (.opening name raw :: (inner ++ [.closing name])).foldlM (readEvent formats) r =
      pure (afterAll formats r [⟨localName name, fields, children⟩]) := by
  have hopen : readEvent formats r (.opening name raw) =
      pure { r with validation := some { fields } } := by
    simp only [readEvent, readTag, hname, fieldsOf, hfields]
    rfl
  obtain ⟨slot, hsame, hfold⟩ := foldlM_inside formats hchildren hplain.inner
    hplain.formulas (r := { r with validation := some { fields } }) rfl (Or.inl hslot)
  have hslot' : slot = none := by
    rcases hsame with h | h
    · exact h
    · exact h.trans hslot
  have hclose (v : StoredValidation) :
      readEvent formats { r with validation := some v, slot := none } (.closing name) =
        pure { r with
          validation := none, slot := none, edits := (spread v).reverse ++ r.edits } := by
    simp only [readEvent, hname, readClosing]
    rfl
  rw [foldlM_cons_of_eq_pure hopen, foldlM_append_of_eq_pure hfold, hslot', hslot,
    filled_none fields (localName name), foldlM_cons_of_eq_pure (hclose _)]
  simp [afterAll, editsOf, widthsOf, hname, hvalidation, hslot]

/-- Elements are read one after the other in the order of the document. -/
theorem foldlM_outside (formats : Array Presentation) {nodes : List Node} {events : List Event}
    (h : Reads nodes events)
    (hplain : ∀ e ∈ branchesOfAll nodes, e.name = "dataValidation" → IsPlainValidation e)
    {r : Reading} (hvalidation : r.validation = none) (hslot : r.slot = none) :
    events.foldlM (readEvent formats) r = pure (afterAll formats r (branchesOfAll nodes)) := by
  induction h generalizing r with
  | nil => rfl
  | @text raw s nodes events hraw h ih =>
    have hread : readEvent formats r (.text raw) = pure r := by
      simp only [readEvent, readText, hvalidation]
      rfl
    rw [foldlM_cons_of_eq_pure hread]
    exact ih hplain hvalidation hslot
  | other h ih => exact ih hplain hvalidation hslot
  | @empty name raw fields nodes events hfields h ih =>
    obtain ⟨-, hrest⟩ := List.forall_mem_cons.1 hplain
    have hread : readEvent formats r (.selfClosing name raw) =
        pure (afterAll formats r [⟨localName name, fields, []⟩]) :=
      readTag_outside hfields hvalidation fun _ => ⟨rfl, rfl⟩
    rw [foldlM_cons_of_eq_pure hread, branchesOfAll, afterAll_append]
    exact ih hrest hvalidation hslot
  | @element name raw fields children nodes inner events hfields hchildren h ihchildren ih =>
    rw [branchesOfAll, Node.branches, List.cons_append] at hplain
    obtain ⟨hown, hplain⟩ := List.forall_mem_cons.1 hplain
    obtain ⟨hinner, hrest⟩ := List.forall_mem_append.1 hplain
    have helement : (.opening name raw :: (inner ++ [.closing name])).foldlM (readEvent formats) r =
        pure (afterAll formats r (Node.element (localName name) fields children).branches) := by
      rw [Node.branches, afterAll_cons]
      by_cases hname : localName name = "dataValidation"
      · rw [foldlM_validation hname hfields hchildren (hown hname) hvalidation hslot,
          afterAll_inner (hown hname).inner]
      · have hread : readEvent formats r (.opening name raw) =
            pure (afterAll formats r [⟨localName name, fields, children⟩]) :=
          readTag_outside hfields hvalidation fun h => absurd h hname
        generalize hr : afterAll formats r [⟨localName name, fields, children⟩] = r' at hread ⊢
        have hvalidation' : r'.validation = none := hr ▸ hvalidation
        have hslot' : r'.slot = none := hr ▸ hslot
        have hclose := readEvent_closing_outside formats
          (r := afterAll formats r' (branchesOfAll children)) hvalidation' hslot' name
        rw [foldlM_cons_of_eq_pure hread,
          foldlM_append_of_eq_pure (ihchildren hinner hvalidation' hslot'),
          foldlM_cons_of_eq_pure hclose]
        rfl
    have hsplit : Event.opening name raw :: (inner ++ .closing name :: events) =
        (.opening name raw :: (inner ++ [.closing name])) ++ events := by simp
    rw [hsplit, foldlM_append_of_eq_pure helement, branchesOfAll, afterAll_append]
    exact ih hrest hvalidation hslot

/-- The look of a part is that of the edits and widths of its elements. -/
theorem ofEvents_eq_of_reads {root : Node} {events : List Event} (h : Reads [root] events)
    (hplain : ∀ e ∈ root.branches, e.name = "dataValidation" → IsPlainValidation e) :
    ofEvents formats events =
      .ok (ofEdits (root.branches.flatMap (editsOf formats)) (root.branches.flatMap widthsOf)) := by
  have hsingle : branchesOfAll [root] = root.branches := by
    rw [branchesOfAll, branchesOfAll, List.append_nil]
  have hread := foldlM_outside formats h (hsingle ▸ hplain) (r := {}) rfl rfl
  rw [ofEvents, hread, hsingle]
  simp [afterAll, Except.map, pure, Except.pure]

end outside

end SheetTemplate.SheetLook
