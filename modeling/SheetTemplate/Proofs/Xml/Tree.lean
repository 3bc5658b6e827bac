import SheetTemplate.Xml.Fields
/-!
The tree of elements that a stream of events spells. Texts, comments and declarations are no part of
it, and an empty tag stands for an element without children.
-/
namespace SheetTemplate.Xml

/-- An element by its local name, with the values of its attributes. -/
structure Element where
  name : String
  fields : Fields
  children : List Element

mutual

def Element.decEq : (a b : Element) → Decidable (a = b)
  | ⟨name, fields, children⟩, ⟨name', fields', children'⟩ =>
    have := elementsDecEq children children'
    decidable_of_iff (name = name' ∧ fields = fields' ∧ children = children') (by simp)

def elementsDecEq : (as bs : List Element) → Decidable (as = bs)
  | [], [] => isTrue rfl
  | [], _ :: _ => isFalse nofun
  | _ :: _, [] => isFalse nofun
  | a :: as, b :: bs =>
    have := a.decEq b
    have := elementsDecEq as bs
    decidable_of_iff (a = b ∧ as = bs) (by simp)

end

instance : DecidableEq Element := Element.decEq

def Element.tag (e : Element) : String × Fields :=
  (e.name, e.fields)

/-- The events are those of the elements, one after the other: the tags of each with its children
between them, or one empty tag for an element without children. -/
inductive Spells : List Element → List Event → Prop
  | nil : Spells [] []
  | text {es : List Element} {events : List Event} (raw : List Char) (h : Spells es events) :
    Spells es (.text raw :: events)
  | other {es : List Element} {events : List Event} (h : Spells es events) :
    Spells es (.other :: events)
  | empty {name : String} {raw : List Char} {fields : Fields} {es : List Element}
      {events : List Event} (hfields : fields? raw = some fields) (h : Spells es events) :
    Spells (⟨localName name, fields, []⟩ :: es) (.selfClosing name raw :: events)
  | element {name : String} {raw : List Char} {fields : Fields} {children es : List Element}
      {inner events : List Event} (hfields : fields? raw = some fields)
      (hchildren : Spells children inner) (h : Spells es events) :
    Spells (⟨localName name, fields, children⟩ :: es)
      (.opening name raw :: (inner ++ .closing name :: events))

mutual

/-- Names and values of the tags that begin the element and those inside it, in their order. -/
def Element.tags : Element → List (String × Fields)
  | ⟨name, fields, children⟩ => (name, fields) :: tagsOfAll children

def tagsOfAll : List Element → List (String × Fields)
  | [] => []
  | e :: es => e.tags ++ tagsOfAll es

end

theorem Element.tags_eq (e : Element) : e.tags = e.tag :: tagsOfAll e.children := by
  cases e
  rfl

/-- A tag begins one of the elements or stands inside one of them. -/
theorem mem_tagsOfAll {es : List Element} {tag : String × Fields} :
    tag ∈ tagsOfAll es ↔ ∃ e ∈ es, tag = e.tag ∨ tag ∈ tagsOfAll e.children := by
  induction es with
  | nil => simp [tagsOfAll]
  | cons e es ih =>
    rw [tagsOfAll, List.mem_append, ih, Element.tags_eq, List.mem_cons]
    simp only [List.mem_cons, exists_eq_or_imp]

/-- An element that is still open: its tag, and the elements before it, the latest first. -/
structure Opened where
  name : String
  fields : Fields
  before : List Element

/-- The elements that events spell, given the open elements around them and the elements of the
innermost so far, both with the latest first. -/
def treesFrom : List Opened → List Element → List Event → Option (List Element)
  | [], es, [] => some es.reverse
  | _ :: _, _, [] => none
  | opened, es, .text _ :: events => treesFrom opened es events
  | opened, es, .other :: events => treesFrom opened es events
  | opened, es, .selfClosing name raw :: events =>
    match fields? raw with
    | some fields => treesFrom opened (⟨localName name, fields, []⟩ :: es) events
    | none => none
  | opened, es, .opening name raw :: events =>
    match fields? raw with
    | some fields => treesFrom (⟨name, fields, es⟩ :: opened) [] events
    | none => none
  | [], _, .closing _ :: _ => none
  | o :: opened, es, .closing name :: events =>
    if o.name = name then
      treesFrom opened (⟨localName name, o.fields, es.reverse⟩ :: o.before) events
    else none
  | _, _, .broken :: _ => none

def trees? (events : List Event) : Option (List Element) :=
  treesFrom [] [] events

/-! ### The tree of a stream is the one that it spells -/

theorem Spells.append {es es' : List Element} {events events' : List Event} (h : Spells es events)
    (h' : Spells es' events') : Spells (es ++ es') (events ++ events') := by
  induction h with
  | nil => exact h'
  | text raw h ih => exact .text raw ih
  | other h ih => exact .other ih
  | empty hfields h ih => exact .empty hfields ih
  | element hfields hchildren h _ ih =>
    rw [List.cons_append, List.cons_append, List.append_assoc, List.cons_append]
    exact .element hfields hchildren ih

private theorem treesFrom_append {es : List Element} {events : List Event} (h : Spells es events)
    (opened : List Opened) (before : List Element) (rest : List Event) :
    treesFrom opened before (events ++ rest) = treesFrom opened (es.reverse ++ before) rest := by
  induction h generalizing opened before rest with
  | nil => rfl
  | text raw h ih =>
    rw [List.cons_append, treesFrom, ih]
  | other h ih => rw [List.cons_append, treesFrom, ih]
  | empty hfields h ih =>
    rw [List.cons_append, treesFrom, hfields, List.reverse_cons, List.append_assoc]
    exact ih _ _ _
  | element hfields hchildren h ihchildren ih =>
    rw [List.cons_append, treesFrom, hfields, List.append_assoc, List.cons_append]
    simp only
    rw [ihchildren, List.append_nil, treesFrom, if_pos rfl, List.reverse_reverse, ih,
      List.reverse_cons, List.append_assoc]
    rfl

/-- The events go on after the elements `before` of the innermost open element, close all open
elements, and end with the elements `es` of the whole. -/
inductive Completes : List Opened → List Element → List Event → List Element → Prop
  | whole {before es : List Element} {events : List Event} (h : Spells es events) :
    Completes [] before events (before.reverse ++ es)
  | closing {o : Opened} {opened : List Opened} {before children es : List Element}
      {inner events : List Event} (hchildren : Spells children inner)
      (h : Completes opened (⟨localName o.name, o.fields, before.reverse ++ children⟩ :: o.before)
        events es) :
    Completes (o :: opened) before (inner ++ .closing o.name :: events) es

theorem Spells.completes {opened : List Opened} {before new es : List Element}
    {pre events : List Event} (hnew : Spells new pre)
    (h : Completes opened (new.reverse ++ before) events es) :
    Completes opened before (pre ++ events) es := by
  cases h with
  | whole h =>
    rw [List.reverse_append, List.reverse_reverse, List.append_assoc]
    exact .whole (hnew.append h)
  | closing hchildren h =>
    rw [List.reverse_append, List.reverse_reverse, List.append_assoc] at h
    rw [← List.append_assoc]
    exact .closing (hnew.append hchildren) h

private theorem completes_of_treesFrom {opened : List Opened} {before es : List Element}
    {events : List Event} (h : treesFrom opened before events = some es) :
    Completes opened before events es := by
  fun_induction treesFrom opened before events with
  | case1 before =>
    obtain rfl := Option.some.inj h
    have hwhole : Completes [] before [] (before.reverse ++ []) := .whole .nil
    rwa [List.append_nil] at hwhole
  | case3 opened before raw events ih =>
    have hnew : Spells [] [.text raw] := .text raw .nil
    exact hnew.completes (ih h)
  | case4 opened before events ih =>
    have hnew : Spells [] [.other] := .other .nil
    exact hnew.completes (ih h)
  | case5 opened before name raw events fields hfields ih =>
    have hnew : Spells [⟨localName name, fields, []⟩] [.selfClosing name raw] :=
      .empty hfields .nil
    exact hnew.completes (ih h)
  | case7 opened before name raw events fields hfields ih =>
    cases ih h with
    | @closing _ _ _ children _ inner rest hchildren hrest =>
      have hnew : Spells [⟨localName name, fields, children⟩]
          (.opening name raw :: (inner ++ [.closing name])) := .element hfields hchildren .nil
      simpa using hnew.completes hrest
  | case10 o opened before events ih =>
    have hnone : Spells [] [] := .nil
    refine .closing hnone ?_
    rw [List.append_nil]
    exact ih h
  | case2 | case6 | case8 | case9 | case11 | case12 => cases h

/-- The elements of a stream are those that it spells, if it spells any. -/
theorem trees?_eq_some_iff {events : List Event} {es : List Element} :
    trees? events = some es ↔ Spells es events := by
  constructor
  · intro h
    have hcompletes := completes_of_treesFrom h
    cases hcompletes with
    | whole hspells => exact hspells
  · intro h
    have htrees := treesFrom_append h [] [] []
    rwa [List.append_nil, List.append_nil, treesFrom, List.reverse_reverse] at htrees

end SheetTemplate.Xml
