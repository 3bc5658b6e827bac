import SheetTemplate.Proofs.Xml.Attribute
import SheetTemplate.Xml.Lexer
/-!
Printed trees: reading the text of a tree gives the events of the tree, for either kind of reader.
A stretch of text is characterised by the events that it adds in front of those of what follows, so
that trees are put together from their tags and their children.
-/
namespace SheetTemplate.Xml

private theorem charsOfAll_eq_flatMap (nodes : List Node) :
    charsOfAll nodes = nodes.flatMap Node.chars := by
  induction nodes with
  | nil => rfl
  | cons n nodes ih => rw [charsOfAll, ih, List.flatMap_cons]

private theorem eventsOfAll_eq_flatMap (nodes : List Node) :
    eventsOfAll nodes = nodes.flatMap Node.events := by
  induction nodes with
  | nil => rfl
  | cons n nodes ih => rw [eventsOfAll, ih, List.flatMap_cons]

/-- A tree of elements with names of a list, in which text stands alone in its element. -/
inductive Node.Tidy (names : List String) : Node → Prop
  | holding {name : String} {fields : Fields} (s : String) (hmem : name ∈ names)
      (hname : isPlainName name = true) (hfields : fields.Plain) :
      Tidy names (.holding name fields s)
  | element {name : String} {fields : Fields} {children : List Node} (hmem : name ∈ names)
      (hname : isPlainName name = true) (hfields : fields.Plain)
      (hchildren : ∀ n ∈ children, Tidy names n) : Tidy names (.element name fields children)

/-- The characters make these events, one in each step, whatever follows. -/
structure Lexes (cs : List Char) (es : List Event) : Prop where
  eventsFrom_append (fuel : Nat) (rest : List Char) :
    eventsFrom (fuel + es.length) (cs ++ rest) = es ++ eventsFrom fuel rest
  length_le : es.length ≤ cs.length

namespace Lexes

theorem nil : Lexes [] [] := ⟨fun _ _ => rfl, Nat.le_refl 0⟩

theorem append {cs ds : List Char} {es fs : List Event} (hc : Lexes cs es) (hd : Lexes ds fs) :
    Lexes (cs ++ ds) (es ++ fs) where
  eventsFrom_append fuel rest := by
    rw [List.length_append, Nat.add_comm es.length, ← Nat.add_assoc, List.append_assoc,
      hc.eventsFrom_append, hd.eventsFrom_append, List.append_assoc]
  length_le := by
    rw [List.length_append, List.length_append]
    exact Nat.add_le_add hc.length_le hd.length_le

theorem flatMap {nodes : List Node} (h : ∀ n ∈ nodes, Lexes n.chars n.events) :
    Lexes (nodes.flatMap Node.chars) (nodes.flatMap Node.events) := by
  induction nodes with
  | nil => exact nil
  | cons n nodes ih =>
    exact (h n List.mem_cons_self).append (ih fun m hm => h m (List.mem_cons_of_mem _ hm))

end Lexes

section tags
variable {name : String} {fields : Fields}

/-- Characters without brackets and quotes stay inside the tag. -/
theorem insideTag?_append {cs : List Char} (h : ∀ c ∈ cs, c ≠ '>' ∧ c ≠ '"' ∧ c ≠ '\'')
    (rest : List Char) :
    insideTag? none (cs ++ rest) = (insideTag? none rest).map fun r => (cs ++ r.1, r.2) := by
  induction cs with
  | nil => simp
  | cons c cs ih =>
    obtain ⟨hgt, hquote, hsingle⟩ := h c List.mem_cons_self
    rw [List.cons_append, insideTag?]
    simp only [hgt, hquote, hsingle, if_false, decide_false, Bool.or_self, Bool.false_eq_true]
    rw [ih fun d hd => h d (List.mem_cons_of_mem _ hd), Option.map_map]
    rfl

/-- A quoted value ends at the next quote, and brackets in it do not close the tag. -/
theorem insideTag?_quoted {cs : List Char} (h : '"' ∉ cs) (rest : List Char) :
    insideTag? (some '"') (cs ++ '"' :: rest) =
      (insideTag? none rest).map fun r => (cs ++ '"' :: r.1, r.2) := by
  induction cs with
  | nil => simp [insideTag?]
  | cons c cs ih =>
    rw [List.mem_cons, not_or] at h
    rw [List.cons_append, insideTag?]
    simp only [Ne.symm h.1, if_false]
    rw [ih h.2, Option.map_map]
    rfl

theorem insideTag?_name (hname : isPlainName name = true) (rest : List Char) :
    insideTag? none (name.toList ++ rest) =
      (insideTag? none rest).map fun r => (name.toList ++ r.1, r.2) :=
  insideTag?_append (fun c hc => ⟨ne_of_mem_name hname (by decide) c hc,
    ne_of_mem_name hname (by decide) c hc, ne_of_mem_name hname (by decide) c hc⟩) rest

private theorem insideTag?_chars (hfields : fields.Plain) (rest : List Char) :
    insideTag? none (fields.chars ++ rest) =
      (insideTag? none rest).map fun r => (fields.chars ++ r.1, r.2) := by
  induction fields with
  | nil => simp [Fields.chars]
  | cons f fields ih =>
    obtain ⟨hname, -, hrest⟩ := Fields.plain_cons hfields
    have hsplit (tail : List Char) : Fields.chars (f :: fields) ++ tail =
        [' '] ++ (f.1.toList ++ (['='] ++ ('"' :: (escapeValue f.2 ++ '"' ::
          (Fields.chars fields ++ tail))))) := by
      rw [Fields.chars_cons]
      simp
    rw [hsplit, insideTag?_append (by simp), insideTag?_name hname, insideTag?_append (by simp),
      insideTag?]
    simp only [show ¬('"' : Char) = '>' by decide, if_false, decide_true, Bool.true_or, if_true]
    rw [insideTag?_quoted (quote_not_mem_escapeValue f.2), ih hrest]
    simp only [Option.map_map]
    congr 1
    funext r
    exact congrArg (·, r.2) (hsplit r.1).symm

private theorem getLast?_chars (f : String × String) (fields : Fields) :
    (Fields.chars (f :: fields)).getLast? = some '"' := by
  induction fields generalizing f with
  | nil =>
    rw [Fields.chars_cons, List.getLast?_append]
    rfl
  | cons g fields ih =>
    rw [Fields.chars_cons, List.getLast?_append, List.getLast?_cons, ih g]
    rfl

/-- What is inside an opening tag, taken apart again. -/
theorem tagOf_opening (hname : isPlainName name = true) :
    tagOf (name.toList ++ fields.chars) = .opening name fields.chars := by
  have hlast : (name.toList ++ fields.chars).getLast? ≠ some '/' := by
    cases fields with
    | nil =>
      intro h
      rw [show Fields.chars [] = [] from rfl, List.append_nil] at h
      exact ne_of_mem_name hname (by decide) '/' (List.mem_of_getLast? h) rfl
    | cons f fields =>
      rw [List.getLast?_append, getLast?_chars, Option.some_or]
      decide
  have hspace : ∀ c ∈ name.toList, (!isSpace c) = true := fun c hc => by
    rw [isSpace_of_mem_name hname c hc, Bool.not_false]
  have hcut : (name.toList ++ fields.chars).takeWhile (fun c => !isSpace c) = name.toList ∧
      (name.toList ++ fields.chars).dropWhile (fun c => !isSpace c) = fields.chars := by
    cases fields with
    | nil =>
      rw [show Fields.chars [] = [] from rfl, List.append_nil]
      exact ⟨List.takeWhile_eq_self_iff.2 hspace, List.dropWhile_eq_nil_iff.2 hspace⟩
    | cons f fields =>
      rw [Fields.chars_cons]
      exact ⟨Text.takeWhile_append_cons hspace (by decide),
        Text.dropWhile_append_cons hspace (by decide)⟩
  rw [tagOf, if_neg hlast]
  simp only [hcut.1, hcut.2, String.ofList_toList]

/-- Markup that begins like a name is a tag. -/
theorem markup?_of_name {c : Char} (hc : isNameChar c = true) (cs : List Char) :
    markup? (c :: cs) = (insideTag? none (c :: cs)).map fun r => (tagOf r.1, r.2) := by
  have hbang : c ≠ '!' := ne_of_isNameChar hc (by decide)
  have hquestion : c ≠ '?' := ne_of_isNameChar hc (by decide)
  have hslash : c ≠ '/' := ne_of_isNameChar hc (by decide)
  unfold markup?
  split <;> simp_all

theorem lexes_opening (hname : isPlainName name = true) (hfields : fields.Plain) :
    Lexes ('<' :: (name.toList ++ fields.chars ++ ['>'])) [.opening name fields.chars] := by
  refine ⟨fun fuel rest => ?_, by simp⟩
  have hmarkup : markup? (name.toList ++ fields.chars ++ ['>'] ++ rest) =
      some (.opening name fields.chars, rest) := by
    obtain ⟨a, as, has, ha, -⟩ := exists_cons_of_isPlainName hname
    have hcons : name.toList ++ fields.chars ++ ['>'] ++ rest =
        a :: (as ++ fields.chars ++ ['>'] ++ rest) := by
      rw [has]
      rfl
    rw [hcons, markup?_of_name ha, ← hcons, List.append_assoc, List.append_assoc,
      insideTag?_name hname, insideTag?_chars hfields]
    simp [insideTag?, tagOf_opening hname]
  rw [List.cons_append, List.length_singleton, eventsFrom, if_pos rfl, hmarkup]
  rfl

/-- A mark is found behind characters that its first one does not occur among. -/
theorem cutAt?_append {cs : List Char} {m : Char} (h : m ∉ cs) (ms rest : List Char) :
    cutAt? (m :: ms) (cs ++ (m :: ms ++ rest)) = some (cs, rest) := by
  induction cs with
  | nil =>
    have hprefix : (m :: ms).isPrefixOf (m :: (ms ++ rest)) = true :=
      List.isPrefixOf_iff_prefix.2 (List.prefix_append (m :: ms) rest)
    rw [List.nil_append, List.cons_append, cutAt?, if_pos hprefix, ← List.cons_append,
      List.drop_left]
  | cons c cs ih =>
    rw [List.mem_cons, not_or] at h
    rw [List.cons_append, cutAt?, ih h.2]
    simp [List.isPrefixOf, h.1]

theorem lexes_closing (hname : isPlainName name = true) :
    Lexes ('<' :: '/' :: (name.toList ++ ['>'])) [.closing name] := by
  refine ⟨fun fuel rest => ?_, by simp⟩
  have hgt : '>' ∉ name.toList := fun h => ne_of_mem_name hname (by decide) _ h rfl
  have hend : closingOf name.toList = .closing name := by
    have hkeep : name.toList.reverse.dropWhile isSpace = name.toList.reverse := by
      cases hr : name.toList.reverse with
      | nil => rfl
      | cons c cs =>
        have hc : c ∈ name.toList := List.mem_reverse.1 (hr ▸ List.mem_cons_self)
        exact List.dropWhile_cons_of_neg (by simp [isSpace_of_mem_name hname c hc])
    rw [closingOf, hkeep, List.reverse_reverse, String.ofList_toList]
  have hmarkup : markup? ('/' :: (name.toList ++ ['>']) ++ rest) = some (.closing name, rest) := by
    rw [List.cons_append, List.append_assoc, markup?, cutAt?_append hgt, Option.map_some, hend]
  rw [List.cons_append, List.length_singleton, eventsFrom, if_pos rfl, hmarkup]
  rfl

theorem escapeText_eq_nil {s : String} (h : escapeText s = []) : s = "" := by
  have hdecode := unescape?_escapeText s
  rw [h] at hdecode
  exact (Option.some.inj hdecode).symm

/-- Text reaches up to the tag behind it. An empty text is no event. -/
theorem lexes_text (s : String) {cs : List Char} {es : List Event}
    (h : Lexes ('<' :: cs) es) :
    Lexes (escapeText s ++ '<' :: cs) ((Node.text s).events ++ es) := by
  by_cases hs : s = ""
  · rw [hs]
    exact h
  · have hlt := lt_not_mem_escapeText s
    obtain ⟨a, as, has⟩ := List.exists_cons_of_ne_nil (mt escapeText_eq_nil hs)
    have hevents : (Node.text s).events = [.text (escapeText s)] := by
      rw [Node.events, if_neg (mt String.isEmpty_iff.1 hs)]
    have hlen := h.length_le
    rw [hevents]
    refine ⟨fun fuel rest => ?_, ?_⟩
    · have hne : ¬a = '<' := fun ha => hlt (has ▸ ha ▸ List.mem_cons_self)
      have hstop : eventsFrom (fuel + es.length) ('<' :: cs ++ rest) = es ++ eventsFrom fuel rest :=
        h.eventsFrom_append fuel rest
      rw [has] at hlt ⊢
      have hcut : a :: (as ++ ('<' :: cs ++ rest)) = (a :: as) ++ '<' :: (cs ++ rest) := rfl
      rw [List.append_assoc, List.singleton_append, List.length_cons, ← Nat.add_assoc,
        List.cons_append, eventsFrom, if_neg hne, hcut, Text.takeWhile_ne_append_cons hlt,
        Text.dropWhile_ne_append_cons hlt, ← List.cons_append, hstop]
      rfl
    · rw [has]
      simp only [List.length_append, List.length_cons, List.length_nil] at hlen ⊢
      omega

end tags

theorem chars_element (name : String) (fields : Fields) (children : List Node) :
    (Node.element name fields children).chars =
      '<' :: (name.toList ++ fields.chars ++ ['>'])
        ++ (children.flatMap Node.chars ++ '<' :: '/' :: (name.toList ++ ['>'])) := by
  rw [Node.chars, charsOfAll_eq_flatMap]
  simp

theorem events_element (name : String) (fields : Fields) (children : List Node) :
    (Node.element name fields children).events =
      [.opening name fields.chars] ++ (children.flatMap Node.events ++ [.closing name]) := by
  rw [Node.events, eventsOfAll_eq_flatMap]
  rfl

section trees
variable {names : List String} {n root : Node}

theorem Node.Tidy.leaf {name : String} {fields : Fields} (hmem : name ∈ names)
    (hname : isPlainName name = true) (hfields : fields.Plain) :
    (Node.leaf name fields).Tidy names :=
  .element hmem hname hfields fun _ h => absurd h List.not_mem_nil

theorem Node.Tidy.mono {names' : List String} (hsub : names ⊆ names') (h : n.Tidy names) :
    n.Tidy names' := by
  induction h with
  | holding s hmem hname hfields => exact .holding s (hsub hmem) hname hfields
  | element hmem hname hfields _ ih => exact .element (hsub hmem) hname hfields ih

/-- The text of a tree makes the events of the tree. -/
theorem Node.Tidy.lexes (h : n.Tidy names) : Lexes n.chars n.events := by
  induction h with
  | holding s _ hname hfields =>
    rw [Node.holding, chars_element, events_element, List.flatMap_singleton, List.flatMap_singleton]
    exact (lexes_opening hname hfields).append (lexes_text s (lexes_closing hname))
  | element _ hname hfields _ ih =>
    rw [chars_element, events_element]
    exact (lexes_opening hname hfields).append ((Lexes.flatMap ih).append (lexes_closing hname))

private theorem Lexes.eventsFrom_length {cs : List Char} {es : List Event} (h : Lexes cs es) :
    eventsFrom cs.length cs = es := by
  obtain ⟨fuel, hfuel⟩ := Nat.exists_eq_add_of_le' h.length_le
  have hall := h.eventsFrom_append fuel []
  have hend : eventsFrom fuel [] = [] := by cases fuel <;> rfl
  rwa [← hfuel, List.append_nil, hend, List.append_nil] at hall

private theorem lexes_instruction {c : Char} {cs : List Char} (hc : c ≠ '>') (hcs : '?' ∉ c :: cs) :
    Lexes ('<' :: '?' :: (c :: cs ++ ['?', '>'])) [.other] := by
  refine ⟨fun fuel rest => ?_, by simp⟩
  have hmarkup : markup? ('?' :: (c :: cs ++ ['?', '>']) ++ rest) = some (.other, rest) := by
    have hcut : cutAt? "?>".toList (c :: cs ++ (['?', '>'] ++ rest)) = some (c :: cs, rest) :=
      cutAt?_append hcs ['>'] rest
    rw [List.cons_append, List.append_assoc, markup?, hcut, Option.map_some]
    exact fun _ h => hc (List.cons.inj h).1
  rw [List.cons_append, List.length_singleton, eventsFrom, if_pos rfl, hmarkup]
  rfl

/-- An XML text begins with an instruction and the end of its line. -/
theorem lexes_declaration {cs : List Char} {es : List Event} (h : Lexes ('<' :: cs) es) :
    Lexes (declaration ++ '<' :: cs) (.other :: .text ['\n'] :: es) := by
  obtain ⟨inside, hinside⟩ : ∃ inside,
      inside = "ml version=\"1.0\" encoding=\"UTF-8\" standalone=\"yes\"".toList := ⟨_, rfl⟩
  have hsplit : declaration = '<' :: '?' :: ('x' :: inside ++ ['?', '>']) ++ ['\n'] := by
    rw [hinside]
    decide +kernel
  have hfirst : Lexes ('<' :: '?' :: ('x' :: inside ++ ['?', '>'])) [.other] :=
    lexes_instruction (by decide) (by simp [hinside])
  rw [hsplit, List.append_assoc]
  exact hfirst.append (lexes_text "\n" h)

/-- The events of a text that is given by its characters. -/
theorem strictEvents_ofList {cs : List Char} (h : cs.head? ≠ some '\ufeff') :
    strictEvents (String.ofList cs) = strict [] (eventsFrom cs.length cs) := by
  rw [strictEvents, events, String.toList_ofList]
  split
  · exact absurd rfl h
  · rfl

private theorem events_declaration {cs : List Char} {es : List Event} (h : Lexes ('<' :: cs) es) :
    events (String.ofList (declaration ++ '<' :: cs)) = .other :: .text ['\n'] :: es := by
  rw [events, String.toList_ofList]
  exact (lexes_declaration h).eventsFrom_length

theorem events_document (h : root.Tidy names) :
    events (document root) = .other :: .text ['\n'] :: root.events := by
  obtain ⟨cs, hcs⟩ : ∃ cs, root.chars = '<' :: cs := by
    cases h <;> exact ⟨_, chars_element _ _ _⟩
  rw [document, hcs]
  exact events_declaration (hcs ▸ h.lexes)

/-- A tolerant reader sees a tree as it is. -/
theorem Node.Tidy.tolerant_append (h : n.Tidy names) (depth : Nat) (rest : List Event) :
    tolerant depth (n.events ++ rest) = n.events ++ tolerant depth rest := by
  induction h generalizing depth rest with
  | @holding name fields s _ _ _ =>
    rw [Node.holding, events_element, List.flatMap_singleton, Node.events]
    split <;> simp [tolerant]
  | @element name fields children _ _ _ _ ih =>
    have hall : ∀ nodes ⊆ children, ∀ depth rest,
        tolerant depth (nodes.flatMap Node.events ++ rest) =
          nodes.flatMap Node.events ++ tolerant depth rest := by
      intro nodes
      induction nodes with
      | nil => exact fun _ _ _ => rfl
      | cons n nodes ihn =>
        intro hsub depth rest
        rw [List.cons_subset] at hsub
        rw [List.flatMap_cons, List.append_assoc, List.append_assoc, ih n hsub.1, ihn hsub.2]
    rw [events_element, List.append_assoc, List.append_assoc, List.singleton_append,
      List.singleton_append, tolerant, hall children (List.Subset.refl _)]
    simp [tolerant]

theorem tolerantEvents_document (h : root.Tidy names) :
    tolerantEvents (document root) = .other :: .text ['\n'] :: root.events := by
  have hroot := h.tolerant_append 0 []
  simp only [List.append_nil, tolerant] at hroot
  simp only [tolerantEvents, events_document h, tolerant, hroot]

/-- An event as a strict reader sees it: a text without the white space around it, if something is
left of it. -/
def Event.stripped? : Event → Option Event
  | .text raw =>
    if (Text.stripBoth isSpace raw).isEmpty then none else some (.text (Text.stripBoth isSpace raw))
  | e => some e

/-- A strict reader sees a tree as it is, apart from the white space around texts. -/
theorem Node.Tidy.strict_append (h : n.Tidy names) (opened : List String) (rest : List Event) :
    strict opened (n.events ++ rest) =
      n.events.filterMap Event.stripped? ++ strict opened rest := by
  induction h generalizing opened rest with
  | @holding name fields s _ _ _ =>
    rw [Node.holding, events_element, List.flatMap_singleton, Node.events]
    split
    · simp [strict, Event.stripped?]
    · by_cases hs : (Text.stripBoth isSpace (escapeText s)).isEmpty <;>
        simp [strict, Event.stripped?, hs]
  | @element name fields children _ _ _ _ ih =>
    have hall : ∀ nodes ⊆ children, ∀ opened rest,
        strict opened (nodes.flatMap Node.events ++ rest) =
          (nodes.flatMap Node.events).filterMap Event.stripped? ++ strict opened rest := by
      intro nodes
      induction nodes with
      | nil => exact fun _ _ _ => rfl
      | cons n nodes ihn =>
        intro hsub opened rest
        rw [List.cons_subset] at hsub
        rw [List.flatMap_cons, List.append_assoc, ih n hsub.1, ihn hsub.2, List.filterMap_append,
          List.append_assoc]
    rw [events_element, List.append_assoc, List.append_assoc, List.singleton_append,
      List.singleton_append, strict, hall children (List.Subset.refl _)]
    simp [strict, Event.stripped?]

theorem strictEvents_document (h : root.Tidy names) :
    strictEvents (document root) = .other :: root.events.filterMap Event.stripped? := by
  have hroot := h.strict_append [] []
  simp only [List.append_nil, strict] at hroot
  have hblank : (Text.stripBoth isSpace ['\n']).isEmpty = true := by decide
  simp only [strictEvents, events_document h, strict, hroot, hblank, if_true]

def Event.Printed (names : List String) : Event → Prop
  | .opening name raw => name ∈ names ∧ ∃ fields : Fields, fields.Plain ∧ raw = fields.chars
  | .closing name => name ∈ names
  | .text _ => True
  | _ => False

theorem Node.Tidy.printed (h : n.Tidy names) : ∀ e ∈ n.events, e.Printed names := by
  induction h with
  | @holding name fields s hmem _ hfields =>
    intro e he
    rw [Node.holding, events_element, List.flatMap_singleton, Node.events] at he
    simp only [List.mem_append, List.mem_singleton] at he
    rcases he with rfl | he | rfl
    · exact ⟨hmem, fields, hfields, rfl⟩
    · split at he
      · cases he
      · rw [List.mem_singleton.1 he]
        trivial
    · exact hmem
  | @element name fields children hmem _ hfields _ ih =>
    intro e he
    rw [events_element] at he
    simp only [List.mem_append, List.mem_singleton, List.mem_flatMap] at he
    rcases he with rfl | ⟨child, hchild, he⟩ | rfl
    · exact ⟨hmem, fields, hfields, rfl⟩
    · exact ih child hchild e he
    · exact hmem

theorem Event.Printed.of_stripped? {e e' : Event} (h : e.Printed names)
    (he : e.stripped? = some e') : e'.Printed names := by
  cases e with
  | text raw =>
    simp only [Event.stripped?] at he
    split at he
    · cases he
    · rw [← Option.some.inj he]
      trivial
  | _ => exact Option.some.inj he ▸ h

theorem Node.Tidy.printed_stripped (h : n.Tidy names) :
    ∀ e ∈ n.events.filterMap Event.stripped?, e.Printed names := by
  intro e he
  obtain ⟨e', he', hstripped⟩ := List.mem_filterMap.1 he
  exact (h.printed e' he').of_stripped? hstripped

end trees

end SheetTemplate.Xml
