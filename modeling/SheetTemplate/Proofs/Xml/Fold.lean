import SheetTemplate.Proofs.Xml.Printed
/-!
Readers that go through events one after the other: a reader gets through a list of events if no
event of it stops the reader where some invariant holds.
-/
namespace SheetTemplate.Xml
variable {α β : Type} {m : Type → Type} [Monad m] [LawfulMonad m] {f : β → α → m β}

theorem foldlM_append_of_eq_pure {xs : List α} {b c : β} (h : xs.foldlM f b = pure c)
    (ys : List α) : (xs ++ ys).foldlM f b = ys.foldlM f c := by
  rw [List.foldlM_append, h, pure_bind]

theorem foldlM_cons_of_eq_pure {x : α} {b c : β} (h : f b x = pure c) (xs : List α) :
    (x :: xs).foldlM f b = xs.foldlM f c := by
  rw [List.foldlM_cons, h, pure_bind]

/-- An invariant that each step keeps without failing holds at the end. -/
theorem exists_foldlM {P : β → Prop} {l : List α}
    (hstep : ∀ a ∈ l, ∀ b, P b → ∃ c, f b a = pure c ∧ P c) {b : β} (hb : P b) :
    ∃ c, l.foldlM f b = pure c ∧ P c := by
  induction l generalizing b with
  | nil => exact ⟨b, rfl, hb⟩
  | cons a l ih =>
    obtain ⟨ha, hrest⟩ := List.forall_mem_cons.1 hstep
    obtain ⟨c, hc, hPc⟩ := ha b hb
    rw [foldlM_cons_of_eq_pure hc]
    exact ih hrest hPc

/-- An invariant that each of some trees keeps without failing holds behind them. -/
theorem exists_foldlM_nodes {f : β → Event → m β} {P : β → Prop} {nodes : List Node}
    (hstep : ∀ n ∈ nodes, ∀ b, P b → ∃ c, n.events.foldlM f b = pure c ∧ P c) {b : β} (hb : P b) :
    ∃ c, (nodes.flatMap Node.events).foldlM f b = pure c ∧ P c := by
  induction nodes generalizing b with
  | nil => exact ⟨b, rfl, hb⟩
  | cons n nodes ih =>
    obtain ⟨hn, hrest⟩ := List.forall_mem_cons.1 hstep
    obtain ⟨c, hc, hPc⟩ := hn b hb
    rw [List.flatMap_cons, foldlM_append_of_eq_pure hc]
    exact ih hrest hPc

/-- An element is read by its tags and, between them, its children. -/
theorem foldlM_element {f : β → Event → m β} {name : String} {fields : Fields}
    {children : List Node} {b c d e : β} (hopen : f b (.opening name fields.chars) = pure c)
    (hchildren : (children.flatMap Node.events).foldlM f c = pure d)
    (hclose : f d (.closing name) = pure e) :
    (Node.element name fields children).events.foldlM f b = pure e := by
  rw [events_element, List.singleton_append, foldlM_cons_of_eq_pure hopen,
    foldlM_append_of_eq_pure hchildren, foldlM_cons_of_eq_pure hclose]
  rfl

/-- A tolerant reader comes to the root of a document if what stands in front of it does not
matter. -/
theorem foldlM_document {f : β → Event → m β} {names : List String} {root : Node}
    (hroot : root.Tidy names) {b c : β} (hother : f b .other = pure b)
    (htext : f b (.text ['\n']) = pure b) (hread : root.events.foldlM f b = pure c) :
    (tolerantEvents (document root)).foldlM f b = pure c := by
  rw [tolerantEvents_document hroot, foldlM_cons_of_eq_pure hother, foldlM_cons_of_eq_pure htext,
    hread]

end SheetTemplate.Xml
