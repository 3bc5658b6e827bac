import SheetTemplate.Formula.Row
import SheetTemplate.Proofs.Formula.Token
import SheetTemplate.Proofs.Text.Numeral
/-!
The rows that a formula refers to relatively, and what moving it tells of them: two moves of a
formula give the same text only if they go to the same row, or if nothing in it moves.
-/
namespace SheetTemplate.Formula

/-- The row that a token refers to: its neighbours leave room for a reference and its digits name
a row. -/
def liveRow? (before after : Option Char) : Token → Option Nat
  | .reference _ _ digits => if isStandalone before after then rowOf? digits else none
  | _ => none

def liveRows (before : Option Char) : List Token → List Nat
  | [] => []
  | t :: rest =>
    (liveRow? before (firstChar? rest) t).toList
      ++ liveRows (t.chars.getLast?.or before) rest

/-- The rows that a formula refers to relatively, in its own sheet. -/
def rows (formula : String) : List Nat :=
  liveRows none (tokens formula.toList)

def redigitToken (a : Nat) (new : List Char → List Char) (before after : Option Char) :
    Token → Token
  | .reference dollar letters digits =>
    if liveRow? before after (.reference dollar letters digits) = some a then
      .reference dollar letters (new digits)
    else .reference dollar letters digits
  | t => t

def redigit (a : Nat) (new : List Char → List Char) (before : Option Char) :
    List Token → List Token
  | [] => []
  | t :: rest =>
    redigitToken a new before (firstChar? rest) t
      :: redigit a new (t.chars.getLast?.or before) rest

theorem redigitToken_of_ne {a : Nat} {before after : Option Char} {t : Token}
    (h : liveRow? before after t ≠ some a) (new : List Char → List Char) :
    redigitToken a new before after t = t := by
  cases t with
  | literal inside => rfl
  | plain c => rfl
  | reference dollar letters digits => exact if_neg h

private theorem redigitToken_id (a : Nat) (before after : Option Char) (t : Token) :
    redigitToken a id before after t = t := by
  cases t with
  | literal inside => rfl
  | plain c => rfl
  | reference dollar letters digits => exact ite_self _

theorem moveToken_eq_redigitToken (a b : Nat) (before after : Option Char) (t : Token) :
    moveToken a b before after t = redigitToken a (fun _ => Text.digits b) before after t := by
  cases t with
  | literal inside => rfl
  | plain c => rfl
  | reference dollar letters digits =>
    simp only [moveToken, redigitToken, liveRow?, Bool.and_eq_true, decide_eq_true_eq,
      Option.ite_none_right_eq_some]

theorem moveTokens_eq_redigit (a b : Nat) (before : Option Char) (ts : List Token) :
    moveTokens a b before ts = redigit a (fun _ => Text.digits b) before ts := by
  induction ts generalizing before with
  | nil => rfl
  | cons t rest ih => rw [moveTokens, redigit, ih, moveToken_eq_redigitToken]

/-- Without references to the row nothing changes. -/
theorem redigit_of_not_mem {a : Nat} {before : Option Char} {ts : List Token}
    (h : a ∉ liveRows before ts) (new : List Char → List Char) :
    redigit a new before ts = ts := by
  induction ts generalizing before with
  | nil => rfl
  | cons t rest ih =>
    simp only [liveRows, List.mem_append, Option.mem_toList, not_or] at h
    rw [redigit, ih h.2, redigitToken_of_ne h.1]

private theorem redigit_id (a : Nat) (before : Option Char) (ts : List Token) :
    redigit a id before ts = ts := by
  induction ts generalizing before with
  | nil => rfl
  | cons t rest ih => rw [redigit, ih, redigitToken_id]

theorem head?_chars {ts : List Token} (h : ∀ t ∈ ts, t.Proper) :
    (chars ts).head? = firstChar? ts := by
  cases ts with
  | nil => rfl
  | cons t rest =>
    obtain ⟨c, cs, hc⟩ := List.exists_cons_of_ne_nil
      (Token.Proper.chars_ne_nil (h t List.mem_cons_self))
    simp [chars, firstChar?, hc]

/-- Other digits leave the first character as it is, since a letter stands before them. -/
theorem head?_chars_redigit {ts : List Token} (h : ∀ t ∈ ts, t.Proper) (a : Nat)
    (new : List Char → List Char) (before : Option Char) :
    (chars (redigit a new before ts)).head? = firstChar? ts := by
  rw [← head?_chars h]
  cases ts with
  | nil => rfl
  | cons t rest =>
    have ht := h t List.mem_cons_self
    cases t with
    | literal inside => rfl
    | plain c => rfl
    | reference dollar letters digits =>
      obtain ⟨c, cs, rfl⟩ := List.exists_cons_of_ne_nil (List.ne_nil_of_length_pos ht.1)
      simp only [redigit, redigitToken]
      split <;> cases dollar <;> simp [chars, Token.chars]

/-- Digits end where something else begins. -/
private theorem digits_eq_of_append {ds es r r' : List Char}
    (hd : ∀ c ∈ ds, Text.isDigit c = true) (he : ∀ c ∈ es, Text.isDigit c = true)
    (hr : ∀ c ∈ r.head?, Text.isDigit c = false) (hr' : ∀ c ∈ r'.head?, Text.isDigit c = false)
    (h : ds ++ r = es ++ r') : ds = es := by
  have htake {ds r : List Char} (hd : ∀ c ∈ ds, Text.isDigit c = true)
      (hr : ∀ c ∈ r.head?, Text.isDigit c = false) :
      (ds ++ r).takeWhile Text.isDigit = ds := by
    rw [List.takeWhile_append_of_pos hd]
    cases r with
    | nil => simp
    | cons c r =>
      have hc : Text.isDigit c = false := hr c rfl
      simp [hc]
  rw [← htake hd hr, h, htake he hr']

/-- If two choices of digits give the same text although there is a reference to the row, then
they choose the same digits for one such reference. -/
theorem digits_eq_of_chars_redigit_eq {a : Nat} {new new' : List Char → List Char}
    (hnew : ∀ ds, rowOf? ds = some a → ∀ c ∈ new ds, Text.isDigit c = true)
    (hnew' : ∀ ds, rowOf? ds = some a → ∀ c ∈ new' ds, Text.isDigit c = true)
    {before : Option Char} {ts : List Token} (hproper : ∀ t ∈ ts, t.Proper)
    (hlive : a ∈ liveRows before ts)
    (h : chars (redigit a new before ts) = chars (redigit a new' before ts)) :
    ∃ ds, rowOf? ds = some a ∧ new ds = new' ds := by
  induction ts generalizing before with
  | nil => exact absurd hlive List.not_mem_nil
  | cons t rest ih =>
    have hrest : ∀ t ∈ rest, t.Proper := fun t ht => hproper t (List.mem_cons_of_mem _ ht)
    simp only [redigit, chars, List.flatMap_cons] at h
    by_cases hself : liveRow? before (firstChar? rest) t = some a
    · cases t with
      | literal inside => cases hself
      | plain c => cases hself
      | reference dollar letters digits =>
        simp only [redigitToken, hself, if_true, Token.chars, List.append_assoc,
          List.append_cancel_left_eq] at h
        simp only [liveRow?, Option.ite_none_right_eq_some, isStandalone, Bool.and_eq_true]
          at hself
        obtain ⟨⟨_, hafter⟩, hrow⟩ := hself
        -- What follows the digits is no digit, whatever was done to the later references.
        have hstop (new : List Char → List Char) (before : Option Char) :
            ∀ c ∈ (chars (redigit a new before rest)).head?, Text.isDigit c = false := by
          rw [head?_chars_redigit hrest]
          intro c hc
          rw [Option.mem_def.1 hc] at hafter
          simp only [Option.all_some, closesReference, Text.isAlphanumeric,
            Bool.not_eq_true', Bool.or_eq_false_iff] at hafter
          exact hafter.1.1.1.2
        exact ⟨digits, hrow, digits_eq_of_append (hnew _ hrow) (hnew' _ hrow) (hstop _ _)
          (hstop _ _) h⟩
    · rw [redigitToken_of_ne hself, redigitToken_of_ne hself] at h
      refine ih hrest ?_ (List.append_cancel_left h)
      simpa [liveRows, hself] using hlive

def movedDigits (a b : Nat) : List Char → List Char :=
  if a = b then id else fun _ => Text.digits b

theorem moveRow_eq (a b : Nat) (f : String) :
    moveRow a b f = String.ofList (chars (redigit a (movedDigits a b) none (tokens f.toList))) := by
  unfold moveRow movedDigits
  split
  · simp [redigit_id]
  · rw [moveTokens_eq_redigit]

theorem moveRow_of_not_mem_rows {a : Nat} {f : String} (h : a ∉ rows f) (b : Nat) :
    moveRow a b f = f := by
  simp [moveRow_eq, redigit_of_not_mem h]

theorem natural?_movedDigits {a b : Nat} {ds : List Char} (h : rowOf? ds = some a) :
    Text.natural? 10 (movedDigits a b ds) = some b := by
  unfold movedDigits
  split
  · rename_i hab
    subst hab
    exact (Option.filter_eq_some_iff.1 h).1
  · exact Text.natural?_digits b

/-- Moves of a formula to two rows agree only if the rows do, or if it does not refer to the row
that it leaves. -/
theorem moveRow_eq_moveRow_iff (a b c : Nat) (f : String) :
    moveRow a b f = moveRow a c f ↔ b = c ∨ a ∉ rows f := by
  constructor
  · intro h
    by_cases hlive : a ∈ rows f
    case neg => exact Or.inr hlive
    rw [moveRow_eq, moveRow_eq] at h
    have hdigits (b : Nat) (ds : List Char) (hds : rowOf? ds = some a) :
        ∀ c ∈ movedDigits a b ds, Text.isDigit c = true :=
      Text.isDigit_of_natural? (natural?_movedDigits hds)
    obtain ⟨ds, hds, heq⟩ := digits_eq_of_chars_redigit_eq (hdigits b) (hdigits c)
      proper_of_mem_tokens hlive (String.ofList_injective h)
    have hb := natural?_movedDigits (b := b) hds
    rw [heq, natural?_movedDigits hds] at hb
    exact Or.inl (Option.some.inj hb).symm
  · rintro (rfl | h)
    · rfl
    · rw [moveRow_of_not_mem_rows h, moveRow_of_not_mem_rows h]

end SheetTemplate.Formula
