import SheetTemplate.Proofs.Formula.Cut
/-!
A formula as it is read: its tokens, each with the row that it refers to. Moving references changes
the numerals of some readings and nothing else, so moves compose.
-/
namespace SheetTemplate.Formula

/-- A token and the row that it refers to where it stands. -/
structure Reading where
  token : Token
  row : Option Nat
deriving DecidableEq

def readingsFrom (before : Option Char) : List Token → List Reading
  | [] => []
  | t :: rest =>
    ⟨t, liveRow? before (firstChar? rest) t⟩ :: readingsFrom (t.chars.getLast?.or before) rest

def readings (formula : String) : List Reading :=
  readingsFrom none (tokens formula.toList)

def Token.withDigits (digits : List Char) : Token → Token
  | .reference dollar letters _ => .reference dollar letters digits
  | t => t

/-- A reference to row `a` refers to row `b` after the move, by the decimal digits of `b`. -/
def Reading.moved (a b : Nat) (r : Reading) : Reading :=
  if r.row = some a then ⟨r.token.withDigits (Text.digits b), some b⟩ else r

private theorem Token.withDigits_withDigits (ds es : List Char) (t : Token) :
    (t.withDigits ds).withDigits es = t.withDigits es := by
  cases t <;> rfl

theorem Reading.moved_of_eq {a : Nat} {r : Reading} (h : r.row = some a) (b : Nat) :
    r.moved a b = ⟨r.token.withDigits (Text.digits b), some b⟩ :=
  if_pos h

theorem Reading.moved_of_ne {a : Nat} {r : Reading} (h : r.row ≠ some a) (b : Nat) :
    r.moved a b = r :=
  if_neg h

theorem map_token_readingsFrom (before : Option Char) (ts : List Token) :
    (readingsFrom before ts).map Reading.token = ts := by
  induction ts generalizing before with
  | nil => rfl
  | cons t rest ih => rw [readingsFrom, List.map_cons, ih]

private theorem liveRows_eq_filterMap (before : Option Char) (ts : List Token) :
    liveRows before ts = (readingsFrom before ts).filterMap Reading.row := by
  induction ts generalizing before with
  | nil => rfl
  | cons t rest ih =>
    rw [liveRows, readingsFrom, List.filterMap_cons, ih]
    cases liveRow? before (firstChar? rest) t <;> rfl

theorem mem_rows_iff {a : Nat} {f : String} : a ∈ rows f ↔ ∃ r ∈ readings f, r.row = some a := by
  rw [rows, liveRows_eq_filterMap, List.mem_filterMap]
  rfl

theorem moveToken_eq (a b : Nat) (before after : Option Char) (t : Token) :
    moveToken a b before after t = (Reading.moved a b ⟨t, liveRow? before after t⟩).token := by
  rw [moveToken_eq_redigitToken]
  by_cases hlive : liveRow? before after t = some a
  · rw [Reading.moved_of_eq hlive]
    cases t with
    | literal inside => rfl
    | plain c => rfl
    | reference dollar letters digits => exact if_pos hlive
  · rw [Reading.moved_of_ne hlive]
    exact redigitToken_of_ne hlive _

private theorem moveTokens_eq_map (a b : Nat) (before : Option Char) (ts : List Token) :
    moveTokens a b before ts =
      (readingsFrom before ts).map fun r => (r.moved a b).token := by
  induction ts generalizing before with
  | nil => rfl
  | cons t rest ih => rw [moveTokens, readingsFrom, List.map_cons, ih, moveToken_eq]

/-! ### Moved formulas are cut alike -/

section cut
variable {a : Nat} (b : Nat) {ts : List Token}

private theorem renumbered_moveToken (before after : Option Char) {t : Token} (h : t.Proper)
    {cs ds : List Char} (hrest : Renumbered cs ds) :
    Renumbered (t.chars ++ cs) ((moveToken a b before after t).chars ++ ds) := by
  cases t with
  | literal inside => exact hrest.append_left _
  | plain c => exact hrest.append_left _
  | reference dollar letters digits =>
    rw [moveToken]
    split
    · simp only [Token.chars, List.append_assoc]
      refine .append_left _ (.append_left _ ?_)
      refine .numeral h.2.2.2.1 (Text.digits_ne_nil b) h.2.2.2.2 (fun c hc => ?_) hrest
      exact Text.isDecimalDigit_of_isDigit c (Text.isDigit_of_mem_digits hc)
    · exact hrest.append_left _

theorem renumbered_moveTokens (before : Option Char) (h : ∀ t ∈ ts, t.Proper) :
    Renumbered (chars ts) (chars (moveTokens a b before ts)) := by
  induction ts generalizing before with
  | nil => exact .nil
  | cons t rest ih =>
    obtain ⟨ht, hrest⟩ := List.forall_mem_cons.1 h
    rw [moveTokens, chars_cons, chars_cons]
    exact renumbered_moveToken b before _ ht (ih _ hrest)

theorem proper_moveToken (before after : Option Char) {t : Token} (h : t.Proper) :
    (moveToken a b before after t).Proper := by
  cases t with
  | literal inside => trivial
  | plain c => trivial
  | reference dollar letters digits =>
    rw [moveToken]
    split
    · refine ⟨h.1, h.2.1, h.2.2.1, Text.digits_ne_nil b, fun c hc => ?_⟩
      exact Text.isDecimalDigit_of_isDigit c (Text.isDigit_of_mem_digits hc)
    · exact h

private theorem proper_moveTokens (before : Option Char) (h : ∀ t ∈ ts, t.Proper) :
    ∀ t ∈ moveTokens a b before ts, t.Proper := by
  induction ts generalizing before with
  | nil => exact h
  | cons t rest ih =>
    obtain ⟨ht, hrest⟩ := List.forall_mem_cons.1 h
    exact List.forall_mem_cons.2 ⟨proper_moveToken b before _ ht, ih _ hrest⟩

theorem firstChar?_moveTokens (before : Option Char) (h : ∀ t ∈ ts, t.Proper) :
    firstChar? (moveTokens a b before ts) = firstChar? ts := by
  rw [← head?_chars_redigit h a (fun _ => Text.digits b) before, ← moveTokens_eq_redigit,
    head?_chars (proper_moveTokens b before h)]

private theorem exists_moveToken_reference (before after : Option Char) (dollar : Bool)
    (letters digits : List Char) : ∃ digits', moveToken a b before after
      (.reference dollar letters digits) = .reference dollar letters digits' := by
  rw [moveToken]
  split <;> exact ⟨_, rfl⟩

/-- A moved formula is cut into the moved tokens: no neighbour of a new numeral joins it, and none
of the tokens in front looks further than the numeral. -/
theorem Cut.moved (h : Cut ts) (before : Option Char) : Cut (moveTokens a b before ts) := by
  induction h generalizing before with
  | nil => exact .nil
  | @literal inside ts hpaired hstop h ih =>
    refine .literal hpaired (fun tail htail => ?_) (ih _)
    have hrest := renumbered_moveTokens (a := a) b
      ((Token.literal inside).chars.getLast?.or before) h.proper
    rw [htail] at hrest
    obtain ⟨tail', htail', hsame⟩ := hrest.symm.exists_of_quote_cons
    rw [hsame.quote_mem_iff]
    exact hstop tail' htail'
  | @reference dollar letters digits ts hproper hstop h ih =>
    have hmoved := proper_moveToken (a := a) b before (firstChar? ts) hproper
    have hhead := firstChar?_moveTokens (a := a) b
      ((Token.reference dollar letters digits).chars.getLast?.or before) h.proper
    rw [← head?_chars h.proper, ← head?_chars (ih _).proper] at hhead
    rw [← hhead] at hstop
    obtain ⟨digits', hdigits⟩ :=
      exists_moveToken_reference (a := a) b before (firstChar? ts) dollar letters digits
    rw [moveTokens, hdigits]
    rw [hdigits] at hmoved
    exact .reference hmoved hstop (ih _)
  | @plain c ts hfront h ih =>
    exact .plain ((renumbered_moveTokens b _ h.proper).front?_eq_none hfront) (ih _)

theorem tokens_moveRow {b : Nat} (hab : a ≠ b) (f : String) :
    tokens (moveRow a b f).toList = moveTokens a b none (tokens f.toList) := by
  rw [moveRow, if_neg hab, String.toList_ofList]
  exact ((cut_tokens _).moved b none).tokens_chars

end cut

/-! ### Moved formulas are read alike -/

private theorem liveRow?_congr {before before' : Option Char}
    (h : before.all opensReference = before'.all opensReference) (after : Option Char) (t : Token) :
    liveRow? before after t = liveRow? before' after t := by
  cases t with
  | literal inside => rfl
  | plain c => rfl
  | reference dollar letters digits =>
    rw [liveRow?, isStandalone, h]
    rfl

private theorem liveRow?_moveToken {a b : Nat} (hb : b < twoTo 32)
    (before after : Option Char) (t : Token) :
    liveRow? before after (moveToken a b before after t) =
      (Reading.moved a b ⟨t, liveRow? before after t⟩).row := by
  have hrow : rowOf? (Text.digits b) = some b := by
    simp [rowOf?, Text.natural?_digits, hb]
  rw [moveToken_eq]
  by_cases hlive : liveRow? before after t = some a
  · rw [Reading.moved_of_eq hlive]
    cases t with
    | literal inside => cases hlive
    | plain c => cases hlive
    | reference dollar letters digits =>
      rw [liveRow?, Option.ite_none_right_eq_some] at hlive
      rw [Token.withDigits, liveRow?, if_pos hlive.1, hrow]
  · rw [Reading.moved_of_ne hlive]

/-- What may follow a numeral is the same for all numerals. -/
theorem all_opensReference_moveToken (a b : Nat) (before after : Option Char) {t : Token}
    (h : t.Proper) : (moveToken a b before after t).chars.getLast?.all opensReference =
      t.chars.getLast?.all opensReference := by
  have hdigits {ds : List Char} (cs : List Char) (hne : ds ≠ [])
      (hds : ∀ c ∈ ds, Text.isDigit c = true) :
      (cs ++ ds).getLast?.all opensReference = false := by
    have hlast := hds _ (List.getLast_mem hne)
    rw [List.getLast?_append, List.getLast?_eq_some_getLast hne]
    simp [opensReference, Text.isAlphanumeric, hlast]
  cases t with
  | literal inside => rfl
  | plain c => rfl
  | reference dollar letters digits =>
    rw [moveToken]
    split
    · rename_i hlive
      simp only [Bool.and_eq_true, decide_eq_true_eq] at hlive
      have hrow := (Option.filter_eq_some_iff.1 hlive.2).1
      simp only [Token.chars, ← List.append_assoc]
      rw [hdigits _ (Text.digits_ne_nil b) fun c hc => Text.isDigit_of_mem_digits hc,
        hdigits _ h.2.2.2.1 (Text.isDigit_of_natural? hrow)]
    · rfl

private theorem readingsFrom_moveTokens {a b : Nat} (hb : b < twoTo 32) {ts : List Token}
    (h : ∀ t ∈ ts, t.Proper) {before before' : Option Char}
    (hbefore : before.all opensReference = before'.all opensReference) :
    readingsFrom before' (moveTokens a b before ts) =
      (readingsFrom before ts).map (Reading.moved a b) := by
  induction ts generalizing before before' with
  | nil => rfl
  | cons t rest ih =>
    obtain ⟨ht, hrest⟩ := List.forall_mem_cons.1 h
    have hafter := firstChar?_moveTokens (a := a) b (t.chars.getLast?.or before) hrest
    rw [moveTokens, readingsFrom, readingsFrom, List.map_cons, hafter, ← liveRow?_congr hbefore,
      liveRow?_moveToken hb, moveToken_eq]
    congr 1
    apply ih hrest
    rw [← moveToken_eq]
    have hlast := all_opensReference_moveToken a b before (firstChar? rest) ht
    obtain ⟨c, hc⟩ := Option.isSome_iff_exists.1
      (List.getLast?_isSome.2 ht.chars_ne_nil)
    have hmoved := proper_moveToken (a := a) b before (firstChar? rest) ht
    obtain ⟨d, hd⟩ := Option.isSome_iff_exists.1 (List.getLast?_isSome.2 hmoved.chars_ne_nil)
    rw [hc, hd] at hlast ⊢
    exact hlast.symm

theorem readings_moveRow {a b : Nat} (hab : a ≠ b) (hb : b < twoTo 32) (f : String) :
    readings (moveRow a b f) = (readings f).map (Reading.moved a b) := by
  rw [readings, tokens_moveRow hab]
  exact readingsFrom_moveTokens hb proper_of_mem_tokens rfl

theorem moveRow_eq_map {a b : Nat} (hab : a ≠ b) (f : String) : moveRow a b f =
    String.ofList (chars ((readings f).map fun r => (r.moved a b).token)) := by
  rw [moveRow, if_neg hab, moveTokens_eq_map]
  rfl

/-- A move goes on where another ended, unless something else referred to that row already. -/
theorem moveRow_moveRow {a b c : Nat} {f : String} (hab : a ≠ b) (hb : b < twoTo 32) (hc : c ≠ a)
    (hfree : b ∉ rows f) : moveRow b c (moveRow a b f) = moveRow a c f := by
  by_cases hbc : b = c
  · subst hbc
    rw [moveRow, if_pos rfl]
  rw [moveRow_eq_map hbc, moveRow_eq_map hc.symm, readings_moveRow hab hb, List.map_map]
  congr 2
  refine List.map_congr_left fun r hr => ?_
  rw [Function.comp_apply]
  by_cases hrow : r.row = some a
  · rw [Reading.moved_of_eq hrow, Reading.moved_of_eq hrow, Reading.moved_of_eq rfl]
    exact Token.withDigits_withDigits _ _ _
  · have hother : r.row ≠ some b := fun h => hfree (mem_rows_iff.2 ⟨r, hr, h⟩)
    rw [Reading.moved_of_ne hrow, Reading.moved_of_ne hrow, Reading.moved_of_ne hother]

/-! ### Moves -/

/-- What a move from row `a` to row `b` makes of a formula. -/
structure CleanMove (a b : Nat) (f : String) : Prop where
  /-- The tokens stay, in order and as they were, and refer to the rows that they referred to; those
  that referred to row `a` have other digits and refer to row `b`. -/
  readings_eq : readings (moveRow a b f) = (readings f).map (Reading.moved a b)
  /-- If nothing referred to row `b`, moving on from there is one move. -/
  moves_on : ∀ c, c ≠ a → b ∉ rows f → moveRow b c (moveRow a b f) = moveRow a c f

theorem moveRow_cleanMove {a b : Nat} (hab : a ≠ b) (hb : b < twoTo 32) (f : String) :
    CleanMove a b f where
  readings_eq := readings_moveRow hab hb f
  moves_on := fun _ hc hfree => moveRow_moveRow hab hb hc hfree

/-- References with leading zeros and dollar signs, beside a name, a literal and other digits. -/
def mixture : String := "$A02+ABCD2*B$2&\"A2\"\"A2\"&C2٢&D2"

theorem mixture_cleanMove : (2 ≠ 10 ∧ 10 < twoTo 32) ∧ 10 ∉ rows mixture ∧
    rows mixture = [2, 2] ∧ CleanMove 2 10 mixture :=
  ⟨⟨by decide, by decide⟩, by decide +kernel, by decide +kernel,
    moveRow_cleanMove (by decide) (by decide) mixture⟩

end SheetTemplate.Formula
