import SheetTemplate.Proofs.Formula.Reference
/-!
What becomes of each character of a formula as the formula moves. All characters stay themselves,
except the numerals of references to the row that is left.
-/
namespace SheetTemplate.Formula

/-- What becomes of the characters of a token as it gets another numeral, which stands for the
first digit of the old one. Nothing stands for the others. -/
def Token.images (new : List Char) : Token → List (List Char)
  | .reference dollar letters digits =>
    ((if dollar then ['$'] else []) ++ letters).map (fun c => [c]) ++
      new :: digits.tail.map fun _ => []
  | t => t.chars.map fun c => [c]

def Reading.images (a b : Nat) (r : Reading) : List (List Char) :=
  if r.row = some a then r.token.images (Text.digits b) else r.token.chars.map fun c => [c]

/-- What becomes of the characters of a formula, one after the other, as it moves from row `a` to
row `b`. -/
def images (a b : Nat) (cs : List Char) : List (List Char) :=
  if a = b then cs.map fun c => [c]
  else (readingsFrom none (tokens cs)).flatMap (Reading.images a b)

/-- The characters `s` between `u` and `w` are still themselves after the move. -/
def Kept (a b : Nat) (u s w : List Char) : Prop :=
  ((images a b (u ++ (s ++ w))).drop u.length).take s.length = s.map fun c => [c]

instance (a b : Nat) (u s w : List Char) : Decidable (Kept a b u s w) :=
  inferInstanceAs (Decidable (_ = _))

/-- What the move makes of the characters `s` between `u` and `w`. -/
def movedPart (a b : Nat) (u s w : List Char) : List Char :=
  (((images a b (u ++ (s ++ w))).drop u.length).take s.length).flatten

/-! ### Images put together -/

theorem flatten_map_singleton (cs : List Char) : (cs.map fun c => [c]).flatten = cs := by
  rw [← List.flatMap_def, List.flatMap_singleton']

@[simp] theorem Token.flatten_images (new : List Char) (t : Token) :
    (t.images new).flatten = (t.withDigits new).chars := by
  cases t with
  | literal inside => exact flatten_map_singleton _
  | plain c => rfl
  | reference dollar letters digits =>
    have hempty : (digits.tail.map fun _ => ([] : List Char)).flatten = [] := by
      refine List.flatten_eq_nil_iff.2 fun l hl => ?_
      obtain ⟨d, -, rfl⟩ := List.mem_map.1 hl
      rfl
    rw [images, List.flatten_append, flatten_map_singleton, List.flatten_cons, hempty,
      List.append_nil, List.append_assoc]
    rfl

@[simp] theorem Reading.flatten_images (a b : Nat) (r : Reading) :
    (r.images a b).flatten = (r.moved a b).token.chars := by
  rw [images, moved]
  split
  · exact r.token.flatten_images _
  · exact flatten_map_singleton _

private theorem flatten_flatMap_images (a b : Nat) (rs : List Reading) :
    (rs.flatMap (Reading.images a b)).flatten =
      chars (rs.map fun r => (r.moved a b).token) := by
  induction rs with
  | nil => rfl
  | cons r rs ih =>
    rw [List.flatMap_cons, List.flatten_append, ih, Reading.flatten_images, List.map_cons,
      chars_cons]

/-- The moved formula is what becomes of its characters. -/
@[simp] theorem flatten_images (a b : Nat) (f : String) :
    (images a b f.toList).flatten = (moveRow a b f).toList := by
  by_cases hab : a = b
  · rw [images, if_pos hab, flatten_map_singleton, moveRow, if_pos hab]
  · rw [images, if_neg hab, flatten_flatMap_images, moveRow_eq_map hab, String.toList_ofList]
    rfl

theorem Token.length_images (new : List Char) {t : Token} (h : t.Proper) :
    (t.images new).length = t.chars.length := by
  cases t with
  | literal inside => exact List.length_map _
  | plain c => rfl
  | reference dollar letters digits =>
    have := List.length_pos_iff.2 h.2.2.2.1
    simp only [images, chars, List.length_append, List.length_map, List.length_cons,
      List.length_tail]
    omega

theorem Reading.length_images (a b : Nat) {r : Reading} (h : r.token.Proper) :
    (r.images a b).length = r.token.chars.length := by
  rw [images]
  split
  · exact Token.length_images _ h
  · exact List.length_map _

theorem length_flatMap_images {a b : Nat} {rs : List Reading} (h : ∀ r ∈ rs, r.token.Proper) :
    (rs.flatMap (Reading.images a b)).length = (chars (rs.map Reading.token)).length := by
  induction rs with
  | nil => rfl
  | cons r rs ih =>
    obtain ⟨hr, hrs⟩ := List.forall_mem_cons.1 h
    rw [List.flatMap_cons, List.length_append, ih hrs, r.length_images a b hr, List.map_cons,
      chars_cons, List.length_append]

theorem proper_of_mem_readings {cs : List Char} :
    ∀ r ∈ readingsFrom none (tokens cs), r.token.Proper := by
  intro r hr
  have htoken : r.token ∈ tokens cs := by
    rw [← map_token_readingsFrom none (tokens cs)]
    exact List.mem_map_of_mem hr
  exact proper_of_mem_tokens _ htoken

theorem length_images (a b : Nat) (cs : List Char) : (images a b cs).length = cs.length := by
  rw [images]
  split
  · exact List.length_map _
  · simp [length_flatMap_images proper_of_mem_readings, map_token_readingsFrom]

/-- The moved formula is what the move makes of its parts, one after the other. -/
theorem moveRow_eq_movedPart (a b : Nat) (u s w : List Char) :
    moveRow a b (String.ofList (u ++ (s ++ w))) =
      String.ofList (movedPart a b [] u (s ++ w) ++
        (movedPart a b u s w ++ movedPart a b (u ++ s) w [])) := by
  have hlength := length_images a b (u ++ (s ++ w))
  have hmoved := flatten_images a b (String.ofList (u ++ (s ++ w)))
  rw [← String.toList_inj, ← hmoved]
  simp only [String.toList_ofList, movedPart, List.append_assoc, List.nil_append, List.append_nil,
    List.length_nil, List.drop_zero]
  generalize images a b (u ++ (s ++ w)) = all at hlength
  simp only [List.length_append] at hlength
  have hrest : (all.drop (u.length + s.length)).take w.length = all.drop (u.length + s.length) := by
    refine List.take_of_length_le ?_
    rw [List.length_drop]
    omega
  rw [List.length_append, hrest, ← List.drop_drop, ← List.flatten_append, ← List.flatten_append,
    List.take_append_drop, List.take_append_drop]

/-- What is kept stands in the moved formula, between what the move makes of the rest. -/
theorem Kept.moveRow_eq {a b : Nat} {u s w : List Char} (h : Kept a b u s w) :
    moveRow a b (String.ofList (u ++ (s ++ w))) =
      String.ofList (movedPart a b [] u (s ++ w) ++ (s ++ movedPart a b (u ++ s) w [])) := by
  have hkept : movedPart a b u s w = s := by
    rw [movedPart, h]
    exact flatten_map_singleton s
  rw [moveRow_eq_movedPart, hkept]

/-! ### What changes -/

/-- A member of an appended list is in one part or in the other. -/
theorem cases_append_cons {α : Type} {xs ys p q : List α} {d : α} (h : xs ++ ys = p ++ d :: q) :
    (∃ z, p = xs ++ z ∧ ys = z ++ d :: q) ∨ ∃ z, xs = p ++ d :: z ∧ q = z ++ ys := by
  rcases List.append_eq_append_iff.1 h with ⟨z, hp, hys⟩ | ⟨z, hxs, hq⟩
  · exact Or.inl ⟨z, hp, hys⟩
  · cases z with
    | nil => exact Or.inl ⟨[], by simpa using hxs.symm, hq.symm⟩
    | cons e z =>
      obtain ⟨rfl, rfl⟩ := List.cons.inj hq
      exact Or.inr ⟨z, hxs, rfl⟩

/-- A character of a reading becomes itself, unless it is a digit of a reference to the row that is
left. -/
theorem Reading.getElem?_images {a : Nat} (b : Nat) {r : Reading} (h : r.token.Proper)
    {x y : List Char} {d : Char} (hd : r.token.chars = x ++ d :: y) :
    (r.images a b)[x.length]? = some [d] ∨ r.row = some a ∧ Text.isDecimalDigit d = true := by
  obtain ⟨t, row⟩ := r
  have hself : (t.chars.map fun c => [c])[x.length]? = some [d] := by simp [hd]
  by_cases hrow : row = some a
  · cases t with
    | literal inside =>
      left
      rwa [images, if_pos hrow]
    | plain c =>
      left
      rwa [images, if_pos hrow]
    | reference dollar letters digits =>
      rw [Token.chars, ← List.append_assoc] at hd
      rcases cases_append_cons hd with ⟨z, -, hz⟩ | ⟨z, hz, -⟩
      · exact Or.inr ⟨hrow, h.2.2.2.2 d (hz ▸ List.mem_append_right _ List.mem_cons_self)⟩
      · left
        simp [images, hrow, Token.images, hz]
  · left
    rwa [images, if_neg hrow]

/-- The last character of a reference to the row that is left does not become itself. -/
theorem Reading.exists_getElem?_images_ne {a b : Nat} (hab : a ≠ b) {t : Token}
    {before after : Option Char} (h : t.Proper) (hrow : liveRow? before after t = some a) :
    ∃ x d, t.chars = x ++ [d] ∧ (Reading.images a b ⟨t, some a⟩)[x.length]? ≠ some [d] := by
  obtain ⟨dollar, letters, digits, rfl, -, -, hrow⟩ := liveRow?_eq_some hrow
  have hvalue := (Option.filter_eq_some_iff.1 hrow).1
  obtain ⟨ds, d, hdigits⟩ := (List.eq_nil_or_concat digits).resolve_left h.2.2.2.1
  rw [List.concat_eq_append] at hdigits
  subst hdigits
  refine ⟨(if dollar then ['$'] else []) ++ letters ++ ds, d, by simp [Token.chars], ?_⟩
  rw [images, if_pos rfl, Token.images, List.length_append,
    List.getElem?_append_right (by simp), List.length_map, Nat.add_sub_cancel_left]
  cases ds with
  | nil =>
    intro hself
    have hb := Text.natural?_digits b
    rw [show Text.digits b = [d] by simpa using hself] at hb
    exact hab (Option.some.inj (hvalue.symm.trans hb))
  | cons e ds => simp

/-- Along readings, a character becomes itself unless it is a digit of a reference to the row that
is left. -/
theorem getElem?_flatMap_images {a : Nat} (b : Nat) {rs : List Reading}
    (h : ∀ r ∈ rs, r.token.Proper) {p q : List Char} {d : Char}
    (hp : chars (rs.map Reading.token) = p ++ d :: q) :
    (rs.flatMap (Reading.images a b))[p.length]? = some [d] ∨
      ∃ l t r x y, rs = l ++ ⟨t, some a⟩ :: r ∧ p = chars (l.map Reading.token) ++ x ∧
        t.chars = x ++ d :: y ∧ q = y ++ chars (r.map Reading.token) ∧
        Text.isDecimalDigit d = true := by
  induction rs generalizing p with
  | nil => simp [chars] at hp
  | cons r rs ih =>
    obtain ⟨hr, hrs⟩ := List.forall_mem_cons.1 h
    rw [List.map_cons, chars_cons] at hp
    have hlength := r.length_images a b hr
    rcases cases_append_cons hp with ⟨p', rfl, hrest⟩ | ⟨z, hz, rfl⟩
    · rcases ih hrs hrest with hself | ⟨l, t, r', x, y, rfl, rfl, ht, rfl, hd⟩
      · left
        rw [List.flatMap_cons, List.length_append, List.getElem?_append_right (by omega), hlength,
          Nat.add_sub_cancel_left, hself]
      · exact Or.inr ⟨r :: l, t, r', x, y, rfl, by simp [chars_cons], ht, rfl, hd⟩
    · rcases r.getElem?_images (a := a) b hr hz with hself | ⟨hrow, hd⟩
      · left
        rw [List.flatMap_cons, List.getElem?_append_left, hself]
        rw [hlength, hz, List.length_append, List.length_cons]
        omega
      · exact Or.inr ⟨[], r.token, rs, p, z, by rw [← hrow]; rfl, rfl, hz, rfl, hd⟩

/-- A character becomes itself unless it is a digit of a reference to the row that is left. -/
theorem images_or_refers (a b : Nat) (p q : List Char) (d : Char) :
    (images a b (p ++ d :: q))[p.length]? = some [d] ∨
      ∃ u t w x y, Refers a u t w ∧ p = u ++ x ∧ t.chars = x ++ d :: y ∧ q = y ++ w ∧
        Text.isDecimalDigit d = true := by
  by_cases hab : a = b
  · left
    simp [images, hab]
  rw [images, if_neg hab]
  have hchars : chars ((readingsFrom none (tokens (p ++ d :: q))).map Reading.token) =
      p ++ d :: q := by
    rw [map_token_readingsFrom, chars_tokens]
  rcases getElem?_flatMap_images (a := a) b proper_of_mem_readings hchars with
    hself | ⟨l, t, r, x, y, hreadings, rfl, ht, rfl, hd⟩
  · exact Or.inl hself
  · refine Or.inr ⟨_, t, _, x, y, refers_iff.2 ⟨l, r, ?_, rfl⟩, rfl, ht, rfl, hd⟩
    rw [← hreadings, ht]
    simp only [List.append_assoc, List.cons_append]

/-- The last character of a reference to the row that is left becomes another. -/
theorem Refers.exists_images_ne {a b : Nat} (hab : a ≠ b) {u w : List Char} {t : Token}
    (h : Refers a u t w) : ∃ x d, t.chars = x ++ [d] ∧
      (images a b (u ++ (t.chars ++ w)))[(u ++ x).length]? ≠ some [d] := by
  obtain ⟨x, d, ht, hne⟩ := Reading.exists_getElem?_images_ne hab h.proper h.row_eq
  obtain ⟨l, r, hreadings, rfl⟩ := refers_iff.1 h
  have hproper : ∀ r ∈ l, r.token.Proper := by
    intro r' hr'
    exact proper_of_mem_readings r' (hreadings ▸ List.mem_append_left _ hr')
  have hlast : x.length < (Reading.images a b ⟨t, some a⟩).length := by
    rw [Reading.length_images a b h.proper, ht, List.length_append]
    exact Nat.lt_succ_self _
  refine ⟨x, d, ht, ?_⟩
  rw [images, if_neg hab, hreadings, List.flatMap_append, List.flatMap_cons, List.length_append,
    ← length_flatMap_images (a := a) (b := b) hproper, List.getElem?_append_right (by omega),
    Nat.add_sub_cancel_left, List.getElem?_append_left hlast]
  exact hne

/-- Characters are kept if each of them is. -/
theorem kept_iff {a b : Nat} {u s w : List Char} : Kept a b u s w ↔
    ∀ x d y, s = x ++ d :: y → (images a b (u ++ (s ++ w)))[(u ++ x).length]? = some [d] := by
  rw [Kept]
  generalize images a b (u ++ (s ++ w)) = all
  constructor
  · rintro h x d y rfl
    have hd := congrArg (fun images => images[x.length]?) h
    simpa [List.getElem?_take, List.getElem?_drop] using hd
  · intro h
    refine List.ext_getElem? fun i => ?_
    rw [List.getElem?_take, List.getElem?_drop, List.getElem?_map]
    by_cases hi : i < s.length
    · have hs := h (s.take i) s[i] (s.drop (i + 1)) (by simp)
      rw [if_pos hi, List.getElem?_eq_getElem hi, Option.map_some, ← hs, List.length_append,
        List.length_take, Nat.min_eq_left (by omega)]
    · rw [if_neg hi, List.getElem?_eq_none (by omega)]
      rfl

end SheetTemplate.Formula
