import SheetTemplate.Package.StoredValidation
import SheetTemplate.Proofs.Text.Blank
import SheetTemplate.Proofs.Text.Numeral
import SheetTemplate.Proofs.Text.Parts
import SheetTemplate.Proofs.Xml.Attribute
/-!
What a validation says after it was stored and read again. Everything is as before, apart from
choices, which are split at their commas, and from formulas that end in a closing brace.
-/
namespace SheetTemplate

namespace Rule

/-- A formula as a stored one is read: with something in it, no white space around it and no equals
sign in front. -/
def IsBare (formula : String) : Prop :=
  formula ≠ "" ∧ Text.trim formula = formula ∧ formula.toList.head? ≠ some '='

instance (formula : String) : Decidable (IsBare formula) :=
  inferInstanceAs (Decidable (_ ∧ _))

/-- A rule that can be stored in a package and told from others there. -/
def Storable : Rule → Prop
  | .list choices => choices ≠ []
  | .source formula => IsBare formula ∧ formula.toList.head? ≠ some '"'
  | .whole _ => True
  | .decimal _ => False
  | .custom formula => IsBare formula

instance : DecidablePred Storable
  | .list choices => inferInstanceAs (Decidable (choices ≠ []))
  | .source _ => inferInstanceAs (Decidable (_ ∧ _))
  | .whole _ => .isTrue trivial
  | .decimal _ => .isFalse id
  | .custom formula => inferInstanceAs (Decidable (IsBare formula))

def EndsInBrace : Rule → Prop
  | .source formula => formula.toList.getLast? = some '\x7d'
  | .custom formula => formula.toList.getLast? = some '\x7d'
  | _ => False

instance : DecidablePred EndsInBrace
  | .list _ => .isFalse id
  | .source _ => inferInstanceAs (Decidable (_ = _))
  | .whole _ => .isFalse id
  | .decimal _ => .isFalse id
  | .custom _ => inferInstanceAs (Decidable (_ = _))

def splitChoices : Rule → Rule
  | .list choices => .list (choices.flatMap (Text.split ','))
  | r => r

theorem splitChoices_list {choices : List String} (h : ∀ c ∈ choices, ',' ∉ c.toList) :
    (Rule.list choices).splitChoices = .list choices := by
  rw [splitChoices]
  congr 1
  induction choices with
  | nil => rfl
  | cons c choices ih =>
    rw [List.flatMap_cons, ih fun d hd => h d (List.mem_cons_of_mem _ hd), Text.split,
      Text.parts_of_not_mem (h c List.mem_cons_self), List.map_singleton, String.ofList_toList]
    rfl

end Rule

namespace StoredValidation

def formulaFound? (formula : String) : Option String :=
  let cs := Text.stripBoth Xml.isSpace formula.toList
  if cs.isEmpty then none else some (String.ofList cs)

def found (v : StoredValidation) : StoredValidation where
  fields := v.fields
  first := v.first.bind formulaFound?
  second := v.second.bind formulaFound?

private theorem isBlank_of_isSpace {c : Char} (h : Xml.isSpace c = true) :
    Text.isBlank c = true := by
  simp only [Xml.isSpace, Bool.or_eq_true, decide_eq_true_eq] at h
  rcases h with ((rfl | rfl) | rfl) | rfl <;> decide

/-- A formula without white space at its ends is found as it is. -/
theorem formulaFound?_of_trim {formula : String} (hne : formula ≠ "")
    (htrim : Text.trimChars formula.toList = formula.toList) :
    formulaFound? formula = some formula := by
  have hstrip : Text.stripBoth Xml.isSpace formula.toList = formula.toList :=
    Text.stripBoth_eq_self_of_subclass (fun _ => isBlank_of_isSpace) htrim
  have hfull : ¬formula.toList.isEmpty = true := by
    simpa using hne
  rw [formulaFound?]
  simp only [hstrip, if_neg hfull, String.ofList_toList]

private theorem length_le_of_formulaFound? {formula g : String}
    (h : formulaFound? formula = some g) :
    g.toList.length ≤ formula.toList.length := by
  simp only [formulaFound?] at h
  split at h
  · cases h
  · rw [← Option.some.inj h, String.toList_ofList]
    exact Text.length_stripBoth_le _ _

private theorem length_bare_le (cs : List Char) : (bare cs).length ≤ cs.length := by
  have htrim := Text.length_stripBoth_le Text.isBlank cs
  unfold bare
  split
  · rename_i rest heq
    rw [Text.trimChars] at heq
    rw [heq, List.length_cons] at htrim
    omega
  · exact htrim

private theorem bare_of_trim {cs : List Char} (htrim : Text.trimChars cs = cs)
    (hfront : cs.head? ≠ some '=') : bare cs = cs := by
  unfold bare
  rw [htrim]
  split
  · exact absurd rfl hfront
  · rfl

section choices

private theorem undoubled_cons {c : Char} (hc : c ≠ '"') (cs : List Char) :
    undoubled (c :: cs) = c :: undoubled cs := by
  rw [undoubled]
  exact fun _ h _ => hc h

theorem undoubled_doubled (cs : List Char) : undoubled (doubled cs) = cs := by
  induction cs with
  | nil => rfl
  | cons c cs ih =>
    rw [doubled, List.flatMap_cons, ← doubled]
    by_cases hc : c = '"'
    · rw [if_pos hc, List.cons_append, List.cons_append, List.nil_append, undoubled, ih, hc]
    · rw [if_neg hc, List.singleton_append, undoubled_cons hc, ih]

private theorem joined_eq_doubled (choices : List String) :
    joined choices = doubled ([','].intercalate (choices.map String.toList)) := by
  unfold joined
  induction choices with
  | nil => rfl
  | cons c choices ih =>
    cases choices with
    | nil => simp
    | cons d choices =>
      simp only [List.map_cons, List.intercalate_cons_cons] at ih ⊢
      rw [ih]
      simp [doubled]

/-- Choices in quotes are read as the choices, split at their commas. -/
theorem choices_quoted {texts : List String} (h : texts ≠ []) :
    choices ('"' :: joined texts ++ ['"']) = (Rule.list texts).splitChoices := by
  have hquoted : quoted? ('"' :: joined texts ++ ['"']) = some (joined texts) := by
    simp [quoted?]
  have hparts : Text.parts ',' (undoubled (joined texts)) =
      (texts.map String.toList).flatMap (Text.parts ',') := by
    rw [joined_eq_doubled, undoubled_doubled, Text.parts_intercalate (by simpa using h)]
  rw [choices, hquoted]
  simp only [hparts, Rule.splitChoices]
  rw [List.flatMap_map, List.map_flatMap]
  rfl

private theorem choices_of_not_quoted {cs : List Char} (h : cs.head? ≠ some '"') :
    choices cs = .source (String.ofList cs) := by
  have hnone : quoted? cs = none := by
    unfold quoted?
    split
    · exact absurd rfl h
    · rfl
  rw [choices, hnone]

private theorem eq_of_choices_eq_source {cs : List Char} {formula : String}
    (h : choices cs = .source formula) : cs = formula.toList := by
  unfold choices at h
  split at h
  · cases h
  · rw [← Rule.source.inj h, String.toList_ofList]

end choices

section operands

private theorem signed?_digits {limit n : Nat} (h : n < limit) :
    Text.signed? 10 limit (Text.digits n) = some (n : Int) := by
  obtain ⟨d, ds, hds⟩ := List.exists_cons_of_ne_nil (Text.digits_ne_nil n)
  have hd : Text.isDigit d = true := Text.isDigit_of_mem_digits (hds ▸ List.mem_cons_self)
  have hread : (Text.natural? 10 (Text.digits n)).filter (· < limit) = some n := by
    rw [Text.natural?_digits, Option.filter_some, if_pos (decide_eq_true h)]
  unfold Text.signed?
  split
  · rename_i hcs
    rw [hds, List.cons.injEq] at hcs
    rw [hcs.1] at hd
    exact absurd hd (by decide)
  · rename_i hcs
    rw [hds, List.cons.injEq] at hcs
    rw [hcs.1] at hd
    exact absurd hd (by decide)
  · rw [hread]
    rfl

private theorem signed?_minus_digits {limit n : Nat} (h : n ≤ limit) :
    Text.signed? 10 limit ('-' :: Text.digits n) = some (-(n : Int)) := by
  have hread : (Text.natural? 10 (Text.digits n)).filter (· ≤ limit) = some n := by
    rw [Text.natural?_digits, Option.filter_some, if_pos (decide_eq_true h)]
  rw [Text.signed?, hread]
  rfl

private theorem int32?_decimalInt (i : Int32) :
    int32? (Text.decimalInt i.toInt).toList = some i := by
  have hlow := i.le_toInt
  have hhigh := i.toInt_lt
  have hlimit : twoTo 31 = 2 ^ 31 := rfl
  have hread : Text.signed? 10 (twoTo 31) (Text.decimalInt i.toInt).toList = some i.toInt := by
    rw [Text.toList_decimalInt]
    split
    · rw [signed?_minus_digits (by omega)]
      congr 1
      omega
    · rw [signed?_digits (by omega)]
      congr 1
      omega
  rw [int32?, hread, Option.map_some, Int32.ofInt_toInt]

theorem isBare_decimalInt (i : Int) : Rule.IsBare (Text.decimalInt i) := by
  have hmem : ∀ c ∈ (Text.decimalInt i).toList, c = '-' ∨ Text.isDigit c = true := by
    intro c hc
    rw [Text.toList_decimalInt] at hc
    split at hc
    · exact (List.mem_cons.1 hc).imp_right Text.isDigit_of_mem_digits
    · exact Or.inr (Text.isDigit_of_mem_digits hc)
  refine ⟨?_, ?_, ?_⟩
  · intro h
    have hempty := Text.toList_decimalInt i
    rw [h] at hempty
    split at hempty
    · cases hempty
    · exact Text.digits_ne_nil _ hempty.symm
  · rw [Text.trim, Text.trimChars, Text.stripBoth_eq_self_of_forall, String.ofList_toList]
    intro c hc
    rcases hmem c hc with rfl | hd
    · decide
    · have hbounds := Text.bounds_of_isDigit hd
      exact Text.isBlank_eq_false hbounds.1 (by omega)
  · intro h
    rcases hmem _ (List.mem_of_head? h) with hd | hd
    · exact absurd hd (by decide)
    · exact absurd hd (by decide)

/-- What is stored of a comparison is read as the comparison. -/
theorem comparison?_operands {α : Type} {read? : List Char → Option α} {text : α → String}
    (hread : ∀ a, read? (text a).toList = some a) (c : Comparison α) :
    ∃ operator : Option String, (operands text c).1 = operator.toList.map ("operator", ·) ∧
      comparison? read? operator (operands text c).2.1.toList
        ((operands text c).2.2.map String.toList) = some c := by
  cases c with
  | between a b => exact ⟨none, rfl, by simp [comparison?, operands, hread]⟩
  | notBetween a b => exact ⟨some "notBetween", rfl, by simp [comparison?, operands, hread]⟩
  | equal a => exact ⟨some "equal", rfl, by simp [comparison?, operands, hread]⟩
  | notEqual a => exact ⟨some "notEqual", rfl, by simp [comparison?, operands, hread]⟩
  | greaterThan a => exact ⟨some "greaterThan", rfl, by simp [comparison?, operands, hread]⟩
  | greaterThanOrEqual a =>
    exact ⟨some "greaterThanOrEqual", rfl, by simp [comparison?, operands, hread]⟩
  | lessThan a => exact ⟨some "lessThan", rfl, by simp [comparison?, operands, hread]⟩
  | lessThanOrEqual a => exact ⟨some "lessThanOrEqual", rfl, by simp [comparison?, operands, hread]⟩

private theorem operands_text {α : Type} (text : α → String) (c : Comparison α) :
    (∃ a, (operands text c).2.1 = text a) ∧ ∀ s ∈ (operands text c).2.2, ∃ b, s = text b := by
  cases c <;> exact ⟨⟨_, rfl⟩, by simp [operands]⟩

end operands

section attributes

def attributes (type : String) (operator : Option String) (ignoreBlank : Bool)
    (message : Option String) (place : CellRef) : Xml.Fields :=
  ("type", type) :: operator.toList.map ("operator", ·)
    ++ (if ignoreBlank then [("allowBlank", "1")] else [])
    ++ [("showInputMessage", "1"), ("showErrorMessage", "1")]
    ++ message.toList.map ("error", ·) ++ [("sqref", place.text)]

variable (type : String) (operator : Option String) (ignoreBlank : Bool) (message : Option String)
  (place : CellRef)

theorem attributes_plain : (attributes type operator ignoreBlank message place).Plain := by
  cases operator <;> cases ignoreBlank <;> cases message <;>
    (simp [attributes, Xml.Fields.Plain]; decide)

theorem localNames_attributes : (attributes type operator ignoreBlank message place).localNames =
    attributes type operator ignoreBlank message place := by
  cases operator <;> cases ignoreBlank <;> cases message <;>
    (simp [attributes, Xml.Fields.localNames]; decide)

private theorem get?_type :
    (attributes type operator ignoreBlank message place).get? "type" = some type := by
  cases operator <;> cases ignoreBlank <;> cases message <;> simp [attributes, Xml.Fields.get?]

private theorem get?_operator :
    (attributes type operator ignoreBlank message place).get? "operator" = operator := by
  cases operator <;> cases ignoreBlank <;> cases message <;> simp [attributes, Xml.Fields.get?]

private theorem flag_allowBlank :
    (attributes type operator ignoreBlank message place).flag "allowBlank" false = ignoreBlank := by
  cases operator <;> cases ignoreBlank <;> cases message <;>
    simp [attributes, Xml.Fields.get?, Xml.Fields.flag]

private theorem get?_error :
    (attributes type operator ignoreBlank message place).get? "error" = message := by
  cases operator <;> cases ignoreBlank <;> cases message <;> simp [attributes, Xml.Fields.get?]

theorem get?_sqref :
    (attributes type operator ignoreBlank message place).get? "sqref" = some place.text := by
  cases operator <;> cases ignoreBlank <;> cases message <;> simp [attributes, Xml.Fields.get?]

end attributes

/-- Type and operator are the first attributes that are stored for a rule. -/
theorem storeRule_eq_ok {r : Rule} {kind : Xml.Fields} {first : String} {second : Option String}
    (h : storeRule r = .ok (kind, first, second)) :
    ∃ (type : String) (operator : Option String),
      kind = ("type", type) :: operator.toList.map ("operator", ·) := by
  have hoperands {α : Type} (text : α → String) (c : Comparison α) :
      ∃ operator : Option String, (operands text c).1 = operator.toList.map ("operator", ·) := by
    cases c <;> first | exact ⟨none, rfl⟩ | exact ⟨some _, rfl⟩
  cases r with
  | list choices =>
    simp only [storeRule] at h
    split at h
    · cases h
    · cases h
      exact ⟨"list", none, rfl⟩
  | source formula =>
    cases h
    exact ⟨"list", none, rfl⟩
  | whole c =>
    cases h
    obtain ⟨operator, hop⟩ := hoperands (fun i : Int32 => Text.decimalInt i.toInt) c
    exact ⟨"whole", operator, congrArg _ hop⟩
  | decimal c =>
    cases h
    obtain ⟨operator, hop⟩ := hoperands Binary64.text c
    exact ⟨"decimal", operator, congrArg _ hop⟩
  | custom formula =>
    cases h
    exact ⟨"custom", none, rfl⟩

private theorem storeMessage_eq_ok {message : Option String} {fields : Xml.Fields}
    (h : storeMessage message = .ok fields) :
    fields = (message.filter (· ≠ "")).toList.map ("error", ·) := by
  cases message with
  | none => exact (Except.ok.inj h).symm
  | some m =>
    simp only [storeMessage] at h
    split at h
    · cases h
    · rw [← Except.ok.inj h]
      by_cases hm : m = "" <;> simp [hm, Option.filter_some]

/-- What is stored for a validation. -/
theorem store_eq_ok {v : Validation} {place : CellRef} {sv : StoredValidation}
    (h : store v place = .ok sv) : ∃ type operator first second,
      storeRule v.rule =
        .ok (("type", type) :: operator.toList.map ("operator", ·), first, second) ∧
      sv.fields = attributes type operator v.ignoreBlank (v.message.filter (· ≠ "")) place ∧
      sv.first = some first ∧ sv.second = second := by
  cases hrule : storeRule v.rule with
  | error e => simp [store, hrule, bind, Except.bind] at h
  | ok stored =>
    obtain ⟨kind, first, second⟩ := stored
    cases hmessage : storeMessage v.message with
    | error e => simp [store, hrule, hmessage, bind, Except.bind] at h
    | ok message =>
      simp only [store, hrule, hmessage, bind, Except.bind, pure, Except.pure, Except.ok.injEq] at h
      obtain ⟨type, operator, rfl⟩ := storeRule_eq_ok hrule
      obtain rfl := storeMessage_eq_ok hmessage
      obtain rfl := h
      exact ⟨type, operator, first, second, rfl, rfl, rfl, rfl⟩

section rules
variable {type : String} {operator : Option String} {first : String} {second : Option String}
  {v : StoredValidation} (htype : v.fields.get? "type" = some type)
  (hoperator : v.fields.get? "operator" = operator) (hfirst : v.first = some first)
  (hsecond : v.second = second)

/-- A formula is stored as it is, or without its closing brace and so with less in it. -/
theorem dropBrace_cases (formula : String) :
    (formula.toList.getLast? ≠ some '\x7d' ∧ dropBrace formula = formula) ∨
      (formula.toList.getLast? = some '\x7d' ∧
        (dropBrace formula).toList.length < formula.toList.length) := by
  unfold dropBrace
  by_cases h : formula.toList.getLast? = some '\x7d'
  · have hne := List.ne_nil_of_mem (List.mem_of_getLast? h)
    have hpos := List.length_pos_iff.2 hne
    rw [if_pos h, String.toList_ofList, List.length_dropLast]
    exact Or.inr ⟨h, by omega⟩
  · rw [if_neg h]
    exact Or.inl ⟨h, rfl⟩

include htype hfirst in
private theorem rule?_found_custom (hcustom : type = "custom") :
    v.found.rule? = (formulaFound? first).map fun s => .custom (String.ofList (bare s.toList)) := by
  simp only [rule?, found, htype, hfirst, hcustom, Option.bind_some]
  cases formulaFound? first <;> rfl

include htype hfirst in
theorem rule?_found_list (hlist : type = "list") :
    v.found.rule? = (formulaFound? first).map fun s => choices (bare s.toList) := by
  simp only [rule?, found, htype, hfirst, hlist, Option.bind_some]
  cases formulaFound? first <;> rfl

end rules

theorem Rule.IsBare.found {formula : String} (h : Rule.IsBare formula) :
    formulaFound? formula = some formula ∧ bare formula.toList = formula.toList := by
  obtain ⟨hne, htrim, hfront⟩ := h
  have htrim' : Text.trimChars formula.toList = formula.toList := by
    have := congrArg String.toList htrim
    rwa [Text.trim, String.toList_ofList] at this
  exact ⟨formulaFound?_of_trim hne htrim', bare_of_trim htrim' hfront⟩

/-- A formula is found again exactly if it did not lose a brace. -/
theorem formulaFound?_dropBrace_iff {formula : String} (h : Rule.IsBare formula)
    (rule : List Char → Rule) {r : Rule} (hrule : ∀ cs, rule cs = r ↔ cs = formula.toList) :
    (formulaFound? (dropBrace formula)).map (fun s => rule (bare s.toList)) = some r ↔
      formula.toList.getLast? ≠ some '\x7d' := by
  obtain ⟨hfound, hbare⟩ := Rule.IsBare.found h
  rcases dropBrace_cases formula with ⟨hend, hdrop⟩ | ⟨hend, hshort⟩
  · rw [hdrop, hfound, Option.map_some, hbare, (hrule _).2 rfl]
    exact iff_of_true rfl hend
  · refine iff_of_false (fun hsame => ?_) (not_not_intro hend)
    obtain ⟨g, hg, hrest⟩ := Option.map_eq_some_iff.1 hsame
    have hlen := (length_bare_le g.toList).trans (length_le_of_formulaFound? hg)
    rw [(hrule _).1 hrest] at hlen
    omega

private theorem rule?_found_whole {c : Comparison Int32} {operator : Option String} {first : String}
    {second : Option String} {v : StoredValidation}
    (hrule : operands (fun i : Int32 => Text.decimalInt i.toInt) c =
      (operator.toList.map ("operator", ·), first, second))
    (htype : v.fields.get? "type" = some "whole") (hoperator : v.fields.get? "operator" = operator)
    (hfirst : v.first = some first) (hsecond : v.second = second) :
    v.found.rule? = some (.whole c) := by
  obtain ⟨operator', hoperator', hread⟩ := comparison?_operands int32?_decimalInt c
  obtain ⟨⟨a, ha⟩, hb⟩ := operands_text (fun i : Int32 => Text.decimalInt i.toInt) c
  rw [hrule] at hoperator' hread ha hb
  simp only [] at hoperator' hread ha hb
  obtain rfl : operator = operator' := by
    cases operator <;> cases operator' <;> simp_all
  obtain ⟨hfound, hbare⟩ := Rule.IsBare.found (ha ▸ isBare_decimalInt a.toInt)
  have hfirst' : v.found.first = some first := by
    rw [found, hfirst, Option.bind_some, hfound]
  have hsecond' : (v.found.second.map fun f => bare f.toList) = second.map String.toList := by
    rw [found, hsecond]
    cases second with
    | none => rfl
    | some s =>
      obtain ⟨b, hb⟩ := hb s rfl
      obtain ⟨hfound, hbare⟩ := Rule.IsBare.found (hb ▸ isBare_decimalInt b.toInt)
      rw [Option.bind_some, hfound, Option.map_some, hbare, Option.map_some]
  have htype' : v.found.fields.get? "type" = some "whole" := htype
  have hoperator' : v.found.fields.get? "operator" = operator := hoperator
  simp only [rule?, htype', hoperator', hfirst', hsecond', Option.map_some, hbare, hread]

private theorem isBare_quoted (texts : List String) :
    Rule.IsBare (String.ofList ('"' :: joined texts ++ ['"'])) := by
  have hchars : (String.ofList ('"' :: joined texts ++ ['"'])).toList =
      '"' :: joined texts ++ ['"'] := String.toList_ofList
  refine ⟨?_, ?_, ?_⟩
  · intro h
    rw [h] at hchars
    cases hchars
  · rw [Text.trim, Text.trimChars, hchars, Text.stripBoth_between (by decide) (by decide)]
  · rw [hchars]
    exact fun h => absurd (Option.some.inj h) (by decide)

private theorem rule?_found_iff {r : Rule} (hr : r.Storable) {type : String}
    {operator : Option String}
    {first : String} {second : Option String} {v : StoredValidation}
    (hrule : storeRule r =
      .ok (("type", type) :: operator.toList.map ("operator", ·), first, second))
    (htype : v.fields.get? "type" = some type) (hoperator : v.fields.get? "operator" = operator)
    (hfirst : v.first = some first) (hsecond : v.second = second) :
    v.found.rule? = some r.splitChoices ↔ ¬r.EndsInBrace := by
  cases r with
  | list texts =>
    simp only [storeRule] at hrule
    split at hrule
    · cases hrule
    · simp only [Except.ok.injEq, Prod.mk.injEq, List.cons.injEq] at hrule
      obtain ⟨⟨⟨-, rfl⟩, -⟩, rfl, rfl⟩ := hrule
      obtain ⟨hfound, hbare⟩ := Rule.IsBare.found (isBare_quoted texts)
      rw [rule?_found_list htype hfirst rfl, hfound, Option.map_some, hbare, String.toList_ofList,
        choices_quoted hr]
      exact iff_of_true rfl id
  | source formula =>
    simp only [storeRule, Except.ok.injEq, Prod.mk.injEq, List.cons.injEq] at hrule
    obtain ⟨⟨⟨-, rfl⟩, -⟩, rfl, rfl⟩ := hrule
    rw [rule?_found_list htype hfirst rfl]
    refine formulaFound?_dropBrace_iff hr.1 _ fun cs => ⟨fun hcs => ?_, fun hcs => ?_⟩
    · exact eq_of_choices_eq_source hcs
    · rw [hcs, choices_of_not_quoted hr.2, String.ofList_toList]
      rfl
  | whole c =>
    simp only [storeRule, Except.ok.injEq, Prod.mk.injEq, List.cons.injEq] at hrule
    obtain ⟨⟨⟨-, rfl⟩, hoperators⟩, hoperand⟩ := hrule
    have hall : operands (fun i : Int32 => Text.decimalInt i.toInt) c =
        (operator.toList.map ("operator", ·), first, second) :=
      Prod.ext hoperators (Prod.ext hoperand.1 hoperand.2)
    rw [rule?_found_whole hall htype hoperator hfirst hsecond]
    exact iff_of_true rfl id
  | decimal c => exact hr.elim
  | custom formula =>
    simp only [storeRule, Except.ok.injEq, Prod.mk.injEq, List.cons.injEq] at hrule
    obtain ⟨⟨⟨-, rfl⟩, -⟩, rfl, rfl⟩ := hrule
    rw [rule?_found_custom htype hfirst rfl]
    refine formulaFound?_dropBrace_iff hr (fun cs => .custom (String.ofList cs)) fun cs =>
      ⟨fun hcs => ?_, fun hcs => ?_⟩
    · rw [← Rule.custom.inj hcs, String.toList_ofList]
    · rw [hcs, String.ofList_toList]
      rfl

/-- A stored validation is read as what it was, with choices split at their commas, exactly if it is
not a formula that ends in a closing brace. -/
theorem validation?_found_iff {v : Validation} {place : CellRef} {sv : StoredValidation}
    (h : store v place = .ok sv) (hrule : v.rule.Storable) (hmessage : v.message ≠ some "") :
    sv.found.validation? = some { v with rule := v.rule.splitChoices } ↔ ¬v.rule.EndsInBrace := by
  obtain ⟨type, operator, first, second, hstored, hfields, hfirst, hsecond⟩ := store_eq_ok h
  have hkeep : v.message.filter (· ≠ "") = v.message := by
    cases hm : v.message with
    | none => rfl
    | some m => simpa [hm, Option.filter_some] using hmessage
  rw [hkeep] at hfields
  have hflag : sv.found.fields.flag "allowBlank" false = v.ignoreBlank := by
    rw [found, hfields, flag_allowBlank]
  have herror : sv.found.fields.get? "error" = v.message := by
    rw [found, hfields, get?_error]
  rw [← rule?_found_iff hrule hstored (by rw [hfields, get?_type]) (by rw [hfields, get?_operator])
    hfirst hsecond]
  rw [validation?, hflag, herror]
  cases sv.found.rule? with
  | none => simp
  | some r => simp

end StoredValidation

end SheetTemplate
