import Mathlib.Algebra.BigOperators.Group.Finset.Basic
import SheetTemplate.Fill.Expansion
/-!
Plans: which rows are replaced, and by how many. The rows that one row becomes stand together, and
the blocks of all rows follow each other without a gap, so a row moves by what the rows above it
have grown.
-/
namespace SheetTemplate

/-- The bound row that each row number has, if that row is replaced. -/
abbrev Plan := Nat → Option BoundRow

namespace Plan

def height (plan : Plan) (row : Nat) : Nat :=
  match plan row with
  | some b => b.items.length
  | none => 1

/-- Number of rows that a row adds to the sheet; it is negative if the row is replaced by none. -/
def growth (plan : Plan) (row : Nat) : Int :=
  match plan row with
  | some b => b.items.length - 1
  | none => 0

/-- The first of the rows that a row becomes: all rows that the rows above it become stand
before. -/
def landing (plan : Plan) (row : Nat) : Nat :=
  ∑ r ∈ Finset.range row, plan.height r

variable {plan : Plan} {row : Nat}

@[simp] theorem height_of_none (h : plan row = none) : plan.height row = 1 := by
  simp [height, h]

theorem height_of_some {b : BoundRow} (h : plan row = some b) :
    plan.height row = b.items.length := by
  simp [height, h]

@[simp] theorem landing_succ (plan : Plan) (row : Nat) :
    plan.landing (row + 1) = plan.landing row + plan.height row :=
  Finset.sum_range_succ _ _

/-- A row moves by what the rows above it add. -/
theorem landing_eq (plan : Plan) (row : Nat) :
    (plan.landing row : Int) = row + ∑ r ∈ Finset.range row, plan.growth r := by
  have hstep (r : Nat) : (plan.height r : Int) = 1 + plan.growth r := by
    unfold height growth
    cases plan r with
    | none => rfl
    | some b => simp only; omega
  induction row with
  | zero => rfl
  | succ row ih =>
    rw [landing_succ, Finset.sum_range_succ, Int.natCast_add, ih, hstep]
    omega

theorem landing_congr {other : Plan} (h : ∀ r < row, plan r = other r) :
    plan.landing row = other.landing row := by
  refine Finset.sum_congr rfl fun r hr => ?_
  simp only [height, h r (Finset.mem_range.1 hr)]

/-- Rows that are not replaced stay together. -/
theorem landing_add_of_free (n : Nat) (h : ∀ r, row ≤ r → r < row + n → plan r = none) :
    plan.landing (row + n) = plan.landing row + n := by
  induction n with
  | zero => rfl
  | succ n ih =>
    rw [← Nat.add_assoc, landing_succ, ih fun r hr hn => h r hr (by omega),
      height_of_none (h (row + n) (by omega) (by omega))]
    omega

/-- The block of a row ends before that of any later row begins. -/
theorem landing_add_height_le {row' : Nat} (h : row < row') :
    plan.landing row + plan.height row ≤ plan.landing row' := by
  rw [← landing_succ]
  refine monotone_nat_of_le_succ (f := plan.landing) (fun r => ?_) h
  rw [landing_succ]
  omega

/-- A row number belongs to one block and has one place in it. -/
theorem landing_unique {i row' i' : Nat} (hi : i < plan.height row) (hi' : i' < plan.height row')
    (h : plan.landing row + i = plan.landing row' + i') : row = row' ∧ i = i' := by
  rcases Nat.lt_trichotomy row row' with hlt | rfl | hlt
  · have : plan.landing row + plan.height row ≤ plan.landing row' := landing_add_height_le hlt
    omega
  · exact ⟨rfl, by omega⟩
  · have : plan.landing row' + plan.height row' ≤ plan.landing row := landing_add_height_le hlt
    omega

/-- Every row number before the landing of a row lies in the block of an earlier row. -/
theorem exists_of_lt_landing {p : Nat} (h : p < plan.landing row) :
    ∃ r < row, ∃ i < plan.height r, p = plan.landing r + i := by
  induction row with
  | zero => exact absurd h (Nat.not_lt_zero p)
  | succ row ih =>
    rw [landing_succ] at h
    by_cases hp : p < plan.landing row
    · obtain ⟨r, hr, hi⟩ := ih hp
      exact ⟨r, by omega, hi⟩
    · exact ⟨row, by omega, p - plan.landing row, by omega, by omega⟩

/-- The plan of some bound rows, of which the first with a row number counts. -/
def ofList (bound : List BoundRow) : Plan := fun row =>
  bound.find? fun b => b.directive.row = row

@[simp] theorem ofList_nil (row : Nat) : ofList [] row = none := by
  simp [ofList]

@[simp] theorem landing_nil (row : Nat) : (ofList []).landing row = row := by
  simp [landing]

@[simp] theorem ofList_cons (b : BoundRow) (rest : List BoundRow) (row : Nat) :
    ofList (b :: rest) row = if b.directive.row = row then some b else ofList rest row := by
  simp only [ofList, List.find?_cons]
  split <;> simp_all

theorem ofList_eq_none {bound : List BoundRow} (h : ∀ b ∈ bound, b.directive.row ≠ row) :
    ofList bound row = none :=
  List.find?_eq_none.2 fun b hb => by simpa using h b hb

abbrev Descending (bound : List BoundRow) : Prop :=
  bound.Pairwise fun a b => b.directive.row < a.directive.row

section cons
variable {b : BoundRow} {rest : List BoundRow}

theorem landing_cons_of_le (h : row ≤ b.directive.row) :
    (ofList (b :: rest)).landing row = (ofList rest).landing row := by
  refine landing_congr fun r hr => ?_
  rw [ofList_cons, if_neg (by omega)]

/-- From the last bound row on, the rest of the plan leaves all rows together. -/
theorem landing_rest_add (h : Descending (b :: rest)) (hrow : b.directive.row ≤ row) (n : Nat) :
    (ofList rest).landing (row + n) = (ofList rest).landing row + n := by
  refine landing_add_of_free n fun r hr _ => ofList_eq_none fun c hc => ?_
  have := (List.pairwise_cons.1 h).1 c hc
  omega

theorem landing_cons_of_lt (h : Descending (b :: rest)) (hrow : b.directive.row < row) :
    (ofList (b :: rest)).landing row + 1 = (ofList rest).landing row + b.items.length := by
  obtain ⟨n, rfl⟩ := Nat.exists_eq_add_of_lt hrow
  have hself : ofList (b :: rest) b.directive.row = some b := by
    simp
  have hfree : ∀ r, b.directive.row + 1 ≤ r → ofList (b :: rest) r = none := fun r hr => by
    refine ofList_eq_none fun c hc => ?_
    rcases List.mem_cons.1 hc with rfl | hc
    · omega
    · have := (List.pairwise_cons.1 h).1 c hc
      omega
  have hrest := landing_rest_add h (Nat.le_refl _) (n + 1)
  rw [Nat.add_right_comm, landing_add_of_free n fun r hr _ => hfree r hr, landing_succ,
    landing_cons_of_le (Nat.le_refl _), height_of_some hself]
  rw [show b.directive.row + 1 + n = b.directive.row + (n + 1) by omega, hrest]
  omega

theorem landing_singleton_of_le (h : row ≤ b.directive.row) : (ofList [b]).landing row = row := by
  rw [landing_cons_of_le h, landing_nil]

theorem landing_singleton_of_lt (h : b.directive.row < row) :
    (ofList [b]).landing row = row - 1 + b.items.length := by
  have hcons := landing_cons_of_lt (List.pairwise_singleton _ b) h
  rw [landing_nil] at hcons
  omega

/-- Replacing the last bound row first and then the others moves a row as the whole plan does. -/
theorem landing_cons (h : Descending (b :: rest)) (row : Nat) :
    (ofList (b :: rest)).landing row = (ofList rest).landing ((ofList [b]).landing row) := by
  by_cases hrow : row ≤ b.directive.row
  · rw [landing_cons_of_le hrow, landing_singleton_of_le hrow]
  · have hlt : b.directive.row < row := Nat.lt_of_not_le hrow
    have hcons := landing_cons_of_lt h hlt
    have hmove := landing_rest_add h (show b.directive.row ≤ row - 1 by omega) b.items.length
    have hsucc := landing_rest_add h (show b.directive.row ≤ row - 1 by omega) 1
    rw [show row - 1 + 1 = row by omega] at hsucc
    rw [landing_singleton_of_lt hlt]
    omega

end cons

/-- Finitely many replaced rows leave no row number without a block. -/
theorem exists_lt_landing (bound : List BoundRow) (p : Nat) :
    ∃ row, p < (ofList bound).landing row := by
  obtain ⟨n, hn⟩ : ∃ n, ∀ b ∈ bound, b.directive.row < n := by
    induction bound with
    | nil => exact ⟨0, fun b hb => absurd hb List.not_mem_nil⟩
    | cons b rest ih =>
      obtain ⟨n, hn⟩ := ih
      refine ⟨max n (b.directive.row + 1), fun c hc => ?_⟩
      rcases List.mem_cons.1 hc with rfl | hc
      · omega
      · have := hn c hc
        omega
  refine ⟨n + (p + 1), ?_⟩
  rw [landing_add_of_free (p + 1) fun r hr _ => ofList_eq_none fun b hb => by
    have := hn b hb
    omega]
  omega

end Plan

end SheetTemplate
