import SheetTemplate.Proofs.Fill.Success
/-!
Which workbooks cannot be filled, and what they fail with. A sheet is unfit if a row has element
markers of two keys, or if the data holds something other than a list under the key of a row. Rows
with two keys are looked for from the top, before any list is looked up; lists are looked up from
the bottom.
-/
namespace SheetTemplate

namespace Binding

theorem ofKeys_eq_mixed_iff {keys : List String} {first second : String} :
    ofKeys keys = .mixed first second ↔ ∃ before after,
      keys = first :: (before ++ second :: after) ∧ (∀ key ∈ before, key = first) ∧
        second ≠ first := by
  cases keys with
  | nil => simp [ofKeys]
  | cons a rest =>
    rw [ofKeys]
    cases hfind : rest.find? (· ≠ a) with
    | none =>
      simp only [reduceCtorEq, List.cons.injEq, false_iff]
      rintro ⟨before, after, ⟨rfl, rfl⟩, -, hne⟩
      have hsame := List.find?_eq_none.1 hfind second (by simp)
      simp [hne] at hsame
    | some b =>
      obtain ⟨hb, before, after, rfl, hbefore⟩ := List.find?_eq_some_iff_append.1 hfind
      simp only [mixed.injEq, List.cons.injEq]
      constructor
      · rintro ⟨rfl, rfl⟩
        exact ⟨before, after, ⟨rfl, rfl⟩, by simpa using hbefore, by simpa using hb⟩
      · rintro ⟨before', after', ⟨rfl, hkeys⟩, hbefore', hne⟩
        have hfind' : (before' ++ second :: after').find? (· ≠ a) = some second :=
          List.find?_eq_some_iff_append.2
            ⟨by simpa using hne, before', after', rfl, by simpa using hbefore'⟩
        rw [← hkeys, hfind] at hfind'
        exact ⟨rfl, Option.some.inj hfind'⟩

theorem ofKeys_eq_bound_iff {keys : List String} {key : String} :
    ofKeys keys = .bound key ↔ keys ≠ [] ∧ ∀ k ∈ keys, k = key := by
  cases keys with
  | nil => simp [ofKeys]
  | cons a rest =>
    rw [ofKeys]
    cases hfind : rest.find? (· ≠ a) with
    | none =>
      have hrest : ∀ k ∈ rest, k = a := by simpa using List.find?_eq_none.1 hfind
      simp only [bound.injEq, ne_eq, reduceCtorEq, not_false_eq_true, true_and,
        List.forall_mem_cons]
      constructor
      · rintro rfl
        exact ⟨rfl, hrest⟩
      · exact And.left
    | some b =>
      have hb : b ≠ a := by simpa using List.find?_some hfind
      simp only [reduceCtorEq, ne_eq, not_false_eq_true, true_and, List.forall_mem_cons,
        false_iff, not_and]
      rintro rfl hall
      exact hb (hall b (List.mem_of_find?_eq_some hfind))

end Binding

namespace Sheet

/-- The keys of the element markers of a row, in the order of the columns and from left to right
within a cell. -/
def rowKeys (s : Sheet) (row : Nat) : List String :=
  Binding.keysOf (s.rowTexts row)

/-- The element markers of a row begin with one key, and another is the first to differ. -/
def Mixes (s : Sheet) (row : Nat) (first second : String) : Prop :=
  ∃ before after, s.rowKeys row = first :: (before ++ second :: after) ∧
    (∀ key ∈ before, key = first) ∧ second ≠ first

/-- All element markers of a row have one key, under which the data holds a value that is no
list. -/
def Mistypes (s : Sheet) (data : Data) (row : Nat) (key : String) (value : Data) : Prop :=
  (s.rowKeys row ≠ [] ∧ ∀ k ∈ s.rowKeys row, k = key) ∧
    data.field? key = some value ∧ ∀ items, value ≠ .list items

/-- Some row has element markers of two keys, or one whose value is no list. -/
def Unfit (s : Sheet) (data : Data) : Prop :=
  (∃ row, ∃ k ∈ s.rowKeys row, ∃ k' ∈ s.rowKeys row, k ≠ k') ∨
    ∃ row key value, s.Mistypes data row key value

/-- Why a sheet cannot be filled: the uppermost row that mixes keys, or else the lowest row whose
value is no list. -/
inductive Fault (s : Sheet) (data : Data) : Failure → Prop
  | mixedKeys {row : Nat} {first second : String} (h : s.Mixes row first second)
      (above : ∀ r < row, ∀ first' second', ¬ s.Mixes r first' second') :
      Fault s data (.mixedKeys s.name row first second)
  | notAList {row : Nat} {key : String} {value : Data}
      (agree : ∀ r first second, ¬ s.Mixes r first second) (h : s.Mistypes data row key value)
      (below : ∀ r key' value', row < r → ¬ s.Mistypes data r key' value') :
      Fault s data (.notAList s.name row key value.kindName)

def mixedFault? (s : Sheet) (row : Nat) : Option Failure :=
  match s.binding row with
  | .mixed first second => some (.mixedKeys s.name row first second)
  | _ => none

def typeFault? (s : Sheet) (data : Data) (row : Nat) : Option Failure :=
  (s.directive? row).bind fun d =>
    match data.field? d.key with
    | none => none
    | some (.list _) => none
    | some other => some (.notAList s.name row d.key other.kindName)

variable {s : Sheet} {data : Data} {row : Nat} {e : Failure}

theorem mixedFault?_eq_some_iff : s.mixedFault? row = some e ↔
    ∃ first second, s.Mixes row first second ∧ .mixedKeys s.name row first second = e := by
  have hmixed (first second : String) :
      s.binding row = .mixed first second ↔ s.Mixes row first second :=
    Binding.ofKeys_eq_mixed_iff
  simp only [← hmixed, mixedFault?]
  cases s.binding row with
  | free => simp
  | bound key => simp
  | mixed first second => simp

theorem typeFault?_eq_some_iff : s.typeFault? data row = some e ↔
    ∃ key value, s.Mistypes data row key value ∧ .notAList s.name row key value.kindName = e := by
  have hbound (key : String) : s.binding row = .bound key ↔
      s.rowKeys row ≠ [] ∧ ∀ k ∈ s.rowKeys row, k = key :=
    Binding.ofKeys_eq_bound_iff
  simp only [Mistypes, ← hbound, typeFault?, directive?]
  cases s.binding row with
  | free => simp
  | mixed first second => simp
  | bound key =>
    simp only [Option.bind_some, Binding.bound.injEq]
    cases hvalue : data.field? key with
    | none => simp [hvalue]
    | some value => cases value <;> simp [hvalue]

theorem directivesOf_eq_error_iff {rows : List Nat} :
    s.directivesOf rows = .error e ↔ rows.findSome? s.mixedFault? = some e := by
  induction rows with
  | nil => simp [directivesOf]
  | cons row rest ih =>
    rw [directivesOf, List.findSome?_cons, mixedFault?]
    cases s.binding row with
    | free => exact ih
    | mixed first second => simp
    | bound key =>
      refine Iff.trans ?_ ih
      cases s.directivesOf rest <;> simp [Except.map]

theorem bindRows_eq_error_iff {rows : List Nat} :
    bindRows s.name data (rows.filterMap s.directive?) = .error e ↔
      rows.findSome? (s.typeFault? data) = some e := by
  induction rows with
  | nil => simp [bindRows]
  | cons row rest ih =>
    rw [List.findSome?_cons, typeFault?]
    cases hd : s.directive? row with
    | none =>
      rw [List.filterMap_cons_none hd]
      exact ih
    | some d =>
      rw [List.filterMap_cons_some hd, bindRows, directive?_row hd, Option.bind_some]
      cases data.field? d.key with
      | none =>
        refine Iff.trans ?_ ih
        cases bindRows s.name data (rest.filterMap s.directive?) <;> simp [Except.map]
      | some value =>
        cases value with
        | list items =>
          refine Iff.trans ?_ ih
          cases bindRows s.name data (rest.filterMap s.directive?) <;> simp [Except.map]
        | _ => simp

/-- Mixed keys are found from the top; without any, values that are no lists from the bottom. -/
theorem expand_eq_error_iff : s.expand data = .error e ↔
    s.rowNumbers.findSome? s.mixedFault? = some e ∨
      s.rowNumbers.findSome? s.mixedFault? = none ∧
        s.rowNumbers.reverse.findSome? (s.typeFault? data) = some e := by
  unfold expand
  cases hd : s.directives with
  | error e' =>
    have hmixed := directivesOf_eq_error_iff.1 hd
    simp [hmixed, bind, Except.bind]
  | ok ds =>
    have hmixed : s.rowNumbers.findSome? s.mixedFault? = none := by
      rw [Option.eq_none_iff_forall_ne_some]
      intro e' he'
      rw [directives, directivesOf_eq_error_iff.2 he'] at hd
      cases hd
    rw [hmixed, directivesOf_eq_ok hd, ← bindRows_eq_error_iff, List.filterMap_reverse]
    cases hb : bindRows s.name data (s.rowNumbers.filterMap s.directive?).reverse <;>
      simp [hb, bind, Except.bind, pure, Except.pure]

/-- In a list that runs in one direction, the first member with a result is the one without any
before it. -/
theorem findSome?_eq_some_iff_of_pairwise {R : Nat → Nat → Prop} (hR : ∀ a b, R a b → ¬ R b a)
    {l : List Nat} (hl : l.Pairwise R) {f : Nat → Option Failure}
    (hf : ∀ a, f a ≠ none → a ∈ l) :
    l.findSome? f = some e ↔ ∃ a, f a = some e ∧ ∀ b, R b a → f b = none := by
  rw [List.findSome?_eq_some_iff]
  constructor
  · rintro ⟨before, a, after, rfl, ha, hbefore⟩
    refine ⟨a, ha, fun b hb => ?_⟩
    by_contra hne
    have hafter := (List.pairwise_cons.1 (List.pairwise_append.1 hl).2.1).1
    rcases List.mem_append.1 (hf b hne) with hmem | hmem
    · exact hne (hbefore b hmem)
    · rcases List.mem_cons.1 hmem with rfl | hmem
      · exact hR b b hb hb
      · exact hR b a hb (hafter b hmem)
  · rintro ⟨a, ha, hfirst⟩
    obtain ⟨before, after, rfl⟩ := List.append_of_mem (hf a (by simp [ha]))
    refine ⟨before, a, after, rfl, ha, fun b hb => hfirst b ?_⟩
    exact (List.pairwise_append.1 hl).2.2 b hb a List.mem_cons_self

theorem mem_rowNumbers_of_mixedFault? (h : s.mixedFault? row ≠ none) : row ∈ s.rowNumbers := by
  apply mem_rowNumbers_of_binding
  intro hfree
  simp [mixedFault?, hfree] at h

theorem mem_rowNumbers_of_typeFault? (h : s.typeFault? data row ≠ none) :
    row ∈ s.rowNumbers := by
  apply mem_rowNumbers_of_binding
  intro hfree
  simp [typeFault?, directive?, hfree] at h

theorem mixedFault?_eq_none_iff :
    s.mixedFault? row = none ↔ ∀ first second, ¬ s.Mixes row first second := by
  simp only [Option.eq_none_iff_forall_ne_some, ne_eq, mixedFault?_eq_some_iff, not_exists,
    not_and]
  exact ⟨fun h first second hmixes => h _ first second hmixes rfl,
    fun h _ first second hmixes => absurd hmixes (h first second)⟩

private theorem typeFault?_eq_none_iff :
    s.typeFault? data row = none ↔ ∀ key value, ¬ s.Mistypes data row key value := by
  simp only [Option.eq_none_iff_forall_ne_some, ne_eq, typeFault?_eq_some_iff, not_exists,
    not_and]
  exact ⟨fun h key value hmistypes => h _ key value hmistypes rfl,
    fun h _ key value hmistypes => absurd hmistypes (h key value)⟩

theorem findSome?_mixedFault?_eq_none_iff : s.rowNumbers.findSome? s.mixedFault? = none ↔
    ∀ row first second, ¬ s.Mixes row first second := by
  rw [List.findSome?_eq_none_iff]
  constructor
  · intro h row
    rw [← mixedFault?_eq_none_iff]
    by_contra hne
    exact hne (h row (mem_rowNumbers_of_mixedFault? hne))
  · intro h row _
    exact mixedFault?_eq_none_iff.2 (h row)

/-- A sheet fails with its fault. -/
theorem expand_eq_error_iff_fault : s.expand data = .error e ↔ s.Fault data e := by
  rw [expand_eq_error_iff, findSome?_mixedFault?_eq_none_iff,
    findSome?_eq_some_iff_of_pairwise (fun a b hab hba => Nat.lt_asymm hab hba)
      s.rowNumbers_ascending (fun _ => mem_rowNumbers_of_mixedFault?),
    findSome?_eq_some_iff_of_pairwise (R := fun a b => b < a)
      (fun a b hab hba => Nat.lt_asymm hab hba)
      (List.pairwise_reverse.2 s.rowNumbers_ascending)
      (fun _ h => List.mem_reverse.2 (mem_rowNumbers_of_typeFault? h))]
  simp only [mixedFault?_eq_some_iff, mixedFault?_eq_none_iff, typeFault?_eq_some_iff,
    typeFault?_eq_none_iff]
  constructor
  · rintro (⟨row, ⟨first, second, h, rfl⟩, above⟩ | ⟨agree, row, ⟨key, value, h, rfl⟩, below⟩)
    · exact .mixedKeys h above
    · exact .notAList agree h fun r key' value' hr => below r hr key' value'
  · rintro (⟨h, above⟩ | ⟨agree, h, below⟩)
    · exact Or.inl ⟨_, ⟨_, _, h, rfl⟩, above⟩
    · exact Or.inr ⟨agree, _, ⟨_, _, h, rfl⟩, fun r hr key' value' => below r key' value' hr⟩

/-- Two keys of a row differ exactly if one differs from the first. -/
theorem exists_mixes_iff : (∃ first second, s.Mixes row first second) ↔
    ∃ k ∈ s.rowKeys row, ∃ k' ∈ s.rowKeys row, k ≠ k' := by
  constructor
  · rintro ⟨first, second, before, after, hkeys, -, hne⟩
    exact ⟨second, by simp [hkeys], first, by simp [hkeys], hne⟩
  · rintro ⟨k, hk, k', hk', hne⟩
    cases hb : Binding.ofKeys (s.rowKeys row) with
    | mixed first second => exact ⟨first, second, Binding.ofKeys_eq_mixed_iff.1 hb⟩
    | bound key =>
      obtain ⟨-, hall⟩ := Binding.ofKeys_eq_bound_iff.1 hb
      exact absurd ((hall k hk).trans (hall k' hk').symm) hne
    | free =>
      cases hkeys : s.rowKeys row with
      | nil =>
        rw [hkeys] at hk
        cases hk
      | cons a rest =>
        rw [hkeys, Binding.ofKeys] at hb
        split at hb <;> cases hb

theorem exists_expand_eq_error_iff : (∃ e, s.expand data = .error e) ↔ s.Unfit data := by
  simp only [Unfit, ← exists_mixes_iff]
  constructor
  · rintro ⟨e, he⟩
    rcases expand_eq_error_iff_fault.1 he with ⟨h, -⟩ | ⟨-, h, -⟩
    · exact Or.inl ⟨_, _, _, h⟩
    · exact Or.inr ⟨_, _, _, h⟩
  · intro h
    by_contra hno
    have hnone (e : Failure) := not_exists.1 hno e
    simp only [expand_eq_error_iff, not_or, not_and] at hnone
    have hmixed := Option.eq_none_iff_forall_ne_some.2 fun e => (hnone e).1
    have htype := Option.eq_none_iff_forall_ne_some.2 fun e => (hnone e).2 hmixed
    rcases h with ⟨row, first, second, hmixes⟩ | ⟨row, key, value, hmistypes⟩
    · exact findSome?_mixedFault?_eq_none_iff.1 hmixed row first second hmixes
    · have hsome := typeFault?_eq_some_iff.2 ⟨key, value, hmistypes, rfl⟩
      have hrow := mem_rowNumbers_of_typeFault? (Option.ne_none_iff_exists'.2 ⟨_, hsome⟩)
      rw [List.findSome?_eq_none_iff.1 htype row (List.mem_reverse.2 hrow)] at hsome
      cases hsome

theorem exists_expand_eq_ok_of_not_unfit (h : ¬ s.Unfit data) :
    ∃ summary filled, s.expand data = .ok (summary, filled) := by
  cases hs : s.expand data with
  | error e => exact absurd (exists_expand_eq_error_iff.1 ⟨e, hs⟩) h
  | ok result => exact ⟨result.1, result.2, rfl⟩

theorem not_unfit_of_expand {summary : SheetSummary} {filled : Sheet}
    (h : s.expand data = .ok (summary, filled)) : ¬ s.Unfit data := by
  rw [← exists_expand_eq_error_iff, h]
  simp

end Sheet

/-- Sheets filled one after the other in place: how that ends, and the sheets as they are then. The
sheets before one that fails are filled already. -/
def fillSheets (data : Data) : List Sheet → Except Failure (List SheetSummary) × List Sheet
  | [] => (.ok [], [])
  | s :: rest =>
    match s.expand data with
    | .error e => (.error e, s :: rest)
    | .ok (summary, filled) =>
      let (outcome, after) := fillSheets data rest
      (outcome.map (summary :: ·), filled :: after)

namespace Workbook

/-- A workbook filled in place: how that ends, and the workbook as it is then. The sheets are those
of a working copy, which takes its place only if all of them could be filled. -/
def fillInPlace (data : Data) (w : Workbook) : Except Failure Summary × Workbook :=
  match fillSheets data w.sheets with
  | (.ok summaries, working) => (.ok ⟨summaries⟩, ⟨working⟩)
  | (.error e, _) => (.error e, w)

/-- Which workbooks cannot be filled, what they fail with, and what is left of them. -/
structure Rejection (data : Data) (w : Workbook) : Prop where
  /-- A workbook fails exactly if a sheet of it is unfit. -/
  fails_iff : (∃ e, w.expand data = .error e) ↔ ∃ s ∈ w.sheets, s.Unfit data
  /-- It fails with the fault of the first sheet that is. -/
  cause_iff : ∀ e, w.expand data = .error e ↔ ∃ before s after,
    w.sheets = before ++ s :: after ∧ s.Fault data e ∧ ∀ t ∈ before, ¬ t.Unfit data
  /-- Filling in place then leaves the workbook as it was, whatever was filled before. -/
  untouched : ∀ e, w.expand data = .error e → w.fillInPlace data = (.error e, w)
  filled : ∀ summary filled, w.expand data = .ok (summary, filled) →
    w.fillInPlace data = (.ok summary, filled)

end Workbook

section workbook
variable {data : Data} {sheets : List Sheet} {e : Failure}

/-- Sheets fail with the fault of the first that is unfit. -/
theorem expandSheets_eq_error_iff : expandSheets data sheets = .error e ↔ ∃ before s after,
    sheets = before ++ s :: after ∧ s.Fault data e ∧ ∀ t ∈ before, ¬ t.Unfit data := by
  induction sheets with
  | nil => simp [expandSheets]
  | cons s rest ih =>
    rw [expandSheets_cons]
    cases hs : s.expand data with
    | error e' =>
      simp only [Except.error.injEq]
      constructor
      · rintro rfl
        exact ⟨[], s, rest, rfl, Sheet.expand_eq_error_iff_fault.1 hs, by simp⟩
      · rintro ⟨before, t, after, heq, hfault, hbefore⟩
        cases before with
        | nil =>
          obtain ⟨rfl, rfl⟩ := List.cons.inj heq
          rw [Sheet.expand_eq_error_iff_fault.2 hfault] at hs
          exact (Except.error.inj hs).symm
        | cons u before =>
          obtain ⟨rfl, -⟩ := List.cons.inj heq
          exact absurd (Sheet.exists_expand_eq_error_iff.1 ⟨e', hs⟩)
            (hbefore s List.mem_cons_self)
    | ok result =>
      have hfit : ¬ s.Unfit data := Sheet.not_unfit_of_expand hs
      have hmap : (expandSheets data rest).map (fun r => (result.1 :: r.1, result.2 :: r.2)) =
          .error e ↔ expandSheets data rest = .error e := by
        cases expandSheets data rest <;> simp [Except.map]
      refine hmap.trans (ih.trans ?_)
      constructor
      · rintro ⟨before, t, after, rfl, hfault, hbefore⟩
        exact ⟨s :: before, t, after, rfl, hfault, List.forall_mem_cons.2 ⟨hfit, hbefore⟩⟩
      · rintro ⟨before, t, after, heq, hfault, hbefore⟩
        cases before with
        | nil =>
          obtain ⟨rfl, -⟩ := List.cons.inj heq
          rw [Sheet.expand_eq_error_iff_fault.2 hfault] at hs
          cases hs
        | cons u before =>
          obtain ⟨rfl, rfl⟩ := List.cons.inj heq
          exact ⟨before, t, after, rfl, hfault, (List.forall_mem_cons.1 hbefore).2⟩

theorem exists_expandSheets_eq_error_iff :
    (∃ e, expandSheets data sheets = .error e) ↔ ∃ s ∈ sheets, s.Unfit data := by
  induction sheets with
  | nil => simp [expandSheets]
  | cons s rest ih =>
    rw [List.exists_mem_cons_iff, ← ih, ← Sheet.exists_expand_eq_error_iff, expandSheets_cons]
    cases s.expand data with
    | error e => simp
    | ok result => cases expandSheets data rest <;> simp [Except.map]

/-- Filling sheets in place ends as filling them does, and with the filled sheets if all could be
filled. -/
theorem fillSheets_eq (data : Data) (sheets : List Sheet) : ∃ working, fillSheets data sheets =
    ((expandSheets data sheets).map Prod.fst, working) ∧
      ∀ result, expandSheets data sheets = .ok result → working = result.2 := by
  induction sheets with
  | nil => exact ⟨[], rfl, fun result h => by cases h; rfl⟩
  | cons s rest ih =>
    obtain ⟨working, hrest, hworking⟩ := ih
    rw [expandSheets_cons, fillSheets]
    cases hs : s.expand data with
    | error e => exact ⟨s :: rest, rfl, fun result h => by cases h⟩
    | ok result =>
      rw [hrest]
      refine ⟨result.2 :: working, ?_, ?_⟩
      · cases expandSheets data rest <;> rfl
      · intro all hall
        cases hr : expandSheets data rest with
        | error e => rw [hr] at hall; cases hall
        | ok after =>
          rw [hr] at hall
          cases hall
          rw [hworking after hr]

end workbook

/-- A workbook is rejected for its first unfit sheet, and left as it was. -/
theorem Workbook.expand_rejection (data : Data) (w : Workbook) : Rejection data w := by
  have herror (e : Failure) :
      w.expand data = .error e ↔ expandSheets data w.sheets = .error e := by
    unfold expand
    cases expandSheets data w.sheets <;> simp [Except.map]
  obtain ⟨working, hfill, hworking⟩ := fillSheets_eq data w.sheets
  constructor
  case fails_iff =>
    simp only [herror]
    exact exists_expandSheets_eq_error_iff
  case cause_iff =>
    intro e
    rw [herror]
    exact expandSheets_eq_error_iff
  case untouched =>
    intro e he
    rw [fillInPlace, hfill, (herror e).1 he]
    rfl
  case filled =>
    intro summary filled h
    unfold expand at h
    cases hs : expandSheets data w.sheets with
    | error e => rw [hs] at h; cases h
    | ok result =>
      rw [hs] at h
      cases h
      rw [fillInPlace, hfill, hs, hworking result hs]
      rfl

namespace Sheet

def listed : Sheet := (named "Listed").setValue ⟨1, 1⟩ (.text "[[a]]")

/-- Two rows have two keys, and above them is a row whose key has no list. -/
def mixed : Sheet :=
  ((((named "Mixed").setValue ⟨1, 1⟩ (.text "[[b]]")).setValue ⟨2, 1⟩
    (.text "[[a]] [[a]]")).setValue ⟨2, 2⟩ (.text "[[b]]")).setValue ⟨3, 1⟩ (.text "[[c]][[a]]")

/-- Both rows have a key without a list. -/
def mistyped : Sheet :=
  ((named "Mistyped").setValue ⟨1, 1⟩ (.text "[[b]]")).setValue ⟨4, 1⟩ (.text "[[c]]")

def unlistedData : Data :=
  .record [("a", .list [.null, .null]), ("b", .text "x"), ("c", .bool true)]

end Sheet

namespace Workbook
open Sheet (listed mixed mistyped unlistedData)

private theorem expand_eq_error {data : Data} {w : Workbook} {e : Failure}
    (h : (match w.expand data with
      | .error e => some e
      | .ok _ => none) = some e) : w.expand data = .error e := by
  cases hw : w.expand data with
  | error e' =>
    rw [hw] at h
    rw [Option.some.inj h]
  | ok result =>
    rw [hw] at h
    cases h

/-- The first unfit sheet counts, and in it two keys in one row before a key without a list. -/
theorem mixed_rejection :
    (⟨[listed, mixed, mistyped]⟩ : Workbook).expand unlistedData =
        .error (.mixedKeys "Mixed" 2 "a" "b") ∧
      (⟨[listed, mistyped, mixed]⟩ : Workbook).expand unlistedData =
        .error (.notAList "Mistyped" 4 "c" "boolean") ∧
      Rejection unlistedData ⟨[listed, mixed, mistyped]⟩ ∧
      Rejection unlistedData ⟨[listed, mistyped, mixed]⟩ :=
  ⟨expand_eq_error (by decide +kernel), expand_eq_error (by decide +kernel),
    expand_rejection _ _, expand_rejection _ _⟩

end Workbook

end SheetTemplate
