import SheetTemplate.Grid.Table
/-!
What a table holds under each key after it is built, merged or mapped. Everything else about
tables follows from this by `Table.ext`.
-/
namespace SheetTemplate.Table
variable {κ α β : Type} [Ord κ]

@[simp] theorem lookup_append (key : κ) (xs ys : List (κ × α)) :
    lookup key (xs ++ ys) = (lookup key xs).or (lookup key ys) := by
  induction xs with
  | nil => rfl
  | cons e xs ih =>
    obtain ⟨k, v⟩ := e
    simp only [List.cons_append, lookup, ih]
    split <;> rfl

@[simp] theorem lookup_map (f : α → β) (l : List (κ × α)) (key : κ) :
    lookup key (l.map fun e => (e.1, f e.2)) = (lookup key l).map f := by
  induction l with
  | nil => rfl
  | cons e l ih =>
    obtain ⟨k, v⟩ := e
    simp only [List.map_cons, lookup, ih]
    split <;> rfl

/-- Of the entries that elements make, those of the last element with some under the key count. -/
theorem lookup_reverse_flatMap (key : κ) (f : β → List (κ × α)) (l : List β) :
    lookup key (l.flatMap f).reverse = l.reverse.findSome? fun b => lookup key (f b).reverse := by
  induction l with
  | nil => rfl
  | cons b l ih =>
    rw [List.flatMap_cons, List.reverse_append, lookup_append, ih, List.reverse_cons,
      List.findSome?_append]
    congr 1
    rw [List.findSome?_cons]
    cases lookup key (f b).reverse <;> rfl

theorem keys_sorted (t : Table κ α) : t.keys.Pairwise fun a b => compare a b = .lt :=
  List.pairwise_map.2 t.sorted

variable [Std.LawfulEqOrd κ]

/-- A list has no value for a key that none of its entries has. -/
theorem lookup_eq_none {key : κ} {l : List (κ × α)} (h : ∀ e ∈ l, e.1 ≠ key) :
    lookup key l = none := by
  induction l with
  | nil => rfl
  | cons e l ih =>
    obtain ⟨k, v⟩ := e
    have hk : compare k key ≠ .eq := fun he =>
      h (k, v) List.mem_cons_self (Std.LawfulEqOrd.eq_of_compare he)
    rw [lookup, if_neg hk]
    exact ih fun e he => h e (List.mem_cons_of_mem _ he)

theorem mem_of_lookup {key : κ} {value : α} {l : List (κ × α)} (h : lookup key l = some value) :
    (key, value) ∈ l := by
  induction l with
  | nil => cases h
  | cons e l ih =>
    obtain ⟨k, v⟩ := e
    rw [lookup] at h
    split at h
    · rename_i hk
      rw [← Option.some.inj h, Std.LawfulEqOrd.eq_of_compare hk]
      exact List.mem_cons_self
    · exact List.mem_cons_of_mem _ (ih h)

theorem exists_lookup_of_mem {key : κ} {value : α} {l : List (κ × α)} (h : (key, value) ∈ l) :
    ∃ first, lookup key l = some first := by
  induction l with
  | nil => cases h
  | cons e l ih =>
    obtain ⟨k, v⟩ := e
    rw [lookup]
    split
    · exact ⟨v, rfl⟩
    · rename_i hk
      rcases List.mem_cons.1 h with hsame | h
      · cases hsame
        exact absurd Std.ReflCmp.compare_self hk
      · exact ih h

/-- If the entries with a key have at most one value, it is the one that is looked up. -/
theorem lookup_eq_of_mem_iff {key : κ} {l : List (κ × α)} {value? : Option α}
    (h : ∀ value, (key, value) ∈ l ↔ value? = some value) : lookup key l = value? := by
  cases value? with
  | none =>
    refine lookup_eq_none fun e he hkey => ?_
    subst hkey
    exact Option.some_ne_none e.2 ((h e.2).1 he).symm
  | some value =>
    obtain ⟨first, hfirst⟩ := exists_lookup_of_mem ((h value).2 rfl)
    exact hfirst.trans ((h first).1 (mem_of_lookup hfirst)).symm

theorem lookup_cons (key k : κ) (v : α) (l : List (κ × α)) [DecidableEq κ] :
    lookup key ((k, v) :: l) = if k = key then some v else lookup key l := by
  rw [lookup]
  by_cases hk : k = key
  · subst hk
    rw [if_pos Std.ReflCmp.compare_self, if_pos rfl]
  · rw [if_neg fun he => hk (Std.LawfulEqOrd.eq_of_compare he), if_neg hk]

/-- Looking up what a function makes of ascending entries, some of which it leaves out. -/
theorem lookup_filterMap [DecidableEq κ] {l : List (κ × α)}
    (h : l.Pairwise fun a b => compare a.1 b.1 = .lt) (f : κ × α → Option β) (key : κ) :
    lookup key (l.filterMap fun e => (f e).map (e.1, ·)) =
      (lookup key l).bind fun v => f (key, v) := by
  induction l with
  | nil => rfl
  | cons e l ih =>
    obtain ⟨k, v⟩ := e
    obtain ⟨hlt, hrest⟩ := List.pairwise_cons.1 h
    rw [lookup_cons, List.filterMap_cons]
    by_cases hk : k = key
    · subst hk
      rw [if_pos rfl, Option.bind_some]
      cases hf : f (k, v) with
      | none =>
        refine lookup_eq_none fun d hd hdk => ?_
        obtain ⟨d', hd', hmap⟩ := List.mem_filterMap.1 hd
        obtain ⟨w, -, rfl⟩ := Option.map_eq_some_iff.1 hmap
        have := hlt d' hd'
        rw [hdk, show compare k k = .eq from Std.ReflCmp.compare_self] at this
        cases this
      | some w => simp [lookup_cons]
    · rw [if_neg hk, ← ih hrest]
      cases f (k, v) with
      | none => rfl
      | some w => simp [lookup_cons, hk]

@[simp] theorem mem_keys_iff {t : Table κ α} {key : κ} :
    key ∈ t.keys ↔ ∃ value, t.find? key = some value := by
  simp only [keys, List.mem_map, Prod.exists, exists_and_right, exists_eq_right,
    find?_eq_some_iff]

@[simp] theorem find?_mapValues (t : Table κ α) (f : κ → α → β) (key : κ) :
    (t.mapValues f).find? key = (t.find? key).map (f key) := by
  simp only [find?, mapValues]
  induction t.entries with
  | nil => rfl
  | cons e l ih =>
    obtain ⟨k, v⟩ := e
    simp only [List.map_cons, lookup, ih]
    split
    · rename_i hk
      obtain rfl := Std.LawfulEqOrd.eq_of_compare hk
      rfl
    · rfl

/-- Under a key stands what stood under the key that is mapped to it. -/
theorem find?_mapKeys?_eq_some_iff {t : Table κ α} {f : κ → Option κ}
    {mono : ∀ a b a' b', compare a b = .lt → f a = some a' → f b = some b' →
      compare a' b' = .lt} {key : κ} {value : α} :
    (t.mapKeys? f mono).find? key = some value ↔
      ∃ k, f k = some key ∧ t.find? k = some value := by
  simp only [find?_eq_some_iff, mapKeys?, List.mem_filterMap, Option.map_eq_some_iff,
    Prod.exists, Prod.mk.injEq]
  constructor
  · rintro ⟨k, v, hm, key', hf, rfl, rfl⟩
    exact ⟨k, hf, hm⟩
  · rintro ⟨k, hf, hm⟩
    exact ⟨k, value, hm, key, hf, rfl, rfl⟩

/-- In an ascending list it does not matter from which end a key is looked up. -/
theorem lookup_reverse {l : List (κ × α)} (h : l.Pairwise fun a b => compare a.1 b.1 = .lt)
    (key : κ) : lookup key l.reverse = lookup key l := by
  induction l with
  | nil => rfl
  | cons e l ih =>
    obtain ⟨k, v⟩ := e
    have hlt := (List.pairwise_cons.1 h).1
    rw [List.reverse_cons, lookup_append, ih (List.pairwise_cons.1 h).2]
    by_cases hk : compare k key = .eq
    · obtain rfl := Std.LawfulEqOrd.eq_of_compare hk
      have hl : lookup k l = none := lookup_eq_none fun e he heq => by
        have := hlt e he
        rw [heq, hk] at this
        cases this
      simp [lookup, hl]
    · simp [lookup, hk]

variable [Std.TransOrd κ]

/-- In a merge of two ascending lists a key has both values joined, or the one that there is. -/
theorem lookup_mergeEntries {both : α → α → α} {xs ys : List (κ × α)}
    (hx : xs.Pairwise fun a b => compare a.1 b.1 = .lt)
    (hy : ys.Pairwise fun a b => compare a.1 b.1 = .lt) (key : κ) :
    lookup key (mergeEntries both xs ys) =
      Option.merge both (lookup key xs) (lookup key ys) := by
  -- A list does not hold a key below its first one.
  have absent {a : κ} {l : List (κ × α)} (h : ∀ e ∈ l, compare a e.1 = .lt)
      (ha : compare a key = .eq) : lookup key l = none := by
    obtain rfl := Std.LawfulEqOrd.eq_of_compare ha
    refine lookup_eq_none fun e he hk => ?_
    have hlt := h e he
    rw [hk, show compare a a = .eq from Std.ReflCmp.compare_self] at hlt
    cases hlt
  fun_induction mergeEntries both xs ys with
  | case1 ys => simp [lookup]
  | case2 xs => simp [lookup]
  | case3 a v xs b w ys hab ih =>
    have hx' := List.pairwise_cons.1 hx
    have hy' := List.pairwise_cons.1 hy
    rw [lookup, ih hx'.2 hy]
    by_cases ha : compare a key = .eq
    · have hys : lookup key ((b, w) :: ys) = none := absent (fun e he => by
        rcases List.mem_cons.1 he with rfl | he
        · exact hab
        · exact Std.TransCmp.lt_trans hab (hy'.1 e he)) ha
      rw [hys]
      simp [lookup, ha]
    · simp [lookup, ha]
  | case4 a v xs b w ys hab ih =>
    have hx' := List.pairwise_cons.1 hx
    have hy' := List.pairwise_cons.1 hy
    obtain rfl := Std.LawfulEqOrd.eq_of_compare hab
    rw [lookup, ih hx'.2 hy'.2]
    by_cases ha : compare a key = .eq <;> simp [lookup, ha]
  | case5 a v xs b w ys hab ih =>
    have hx' := List.pairwise_cons.1 hx
    have hy' := List.pairwise_cons.1 hy
    have hba : compare b a = .lt := Std.OrientedCmp.gt_iff_lt.1 hab
    rw [lookup, ih hx hy'.2]
    by_cases hb : compare b key = .eq
    · have hxs : lookup key ((a, v) :: xs) = none := absent (fun e he => by
        rcases List.mem_cons.1 he with rfl | he
        · exact hba
        · exact Std.TransCmp.lt_trans hba (hx'.1 e he)) hb
      rw [hxs]
      simp [lookup, hb]
    · simp [lookup, hb]

theorem find?_mergeWith (both : α → α → α) (s t : Table κ α) (key : κ) :
    (mergeWith both s t).find? key = Option.merge both (s.find? key) (t.find? key) :=
  lookup_mergeEntries s.sorted t.sorted key

/-- What was merged in wins. -/
@[simp] theorem find?_mergeWith_new (s t : Table κ α) (key : κ) :
    (mergeWith (fun _ new => new) s t).find? key = (t.find? key).or (s.find? key) := by
  rw [find?_mergeWith]
  cases s.find? key <;> cases t.find? key <;> rfl

@[simp] theorem find?_insert [DecidableEq κ] (t : Table κ α) (k : κ) (v : α) (key : κ) :
    (t.insert k v).find? key = if key = k then some v else t.find? key := by
  rw [insert, find?_mergeWith_new, find?, singleton, lookup_cons]
  by_cases hk : key = k
  · rw [if_pos hk, if_pos hk.symm, Option.some_or]
  · rw [if_neg hk, if_neg (Ne.symm hk)]
    rfl

/-- Each value that another table has an entry for is changed once, and the others are left. -/
theorem find?_foldl_insert [DecidableEq κ] (t : Table κ β) (f : β → Option α → α) (u : Table κ α)
    (key : κ) :
    (t.entries.foldl (fun u e => u.insert e.1 (f e.2 (u.find? e.1))) u).find? key =
      ((t.find? key).map fun v => f v (u.find? key)).or (u.find? key) := by
  obtain ⟨entries, hsorted⟩ := t
  show (entries.foldl _ u).find? key = ((lookup key entries).map _).or _
  induction entries generalizing u with
  | nil => rfl
  | cons e entries ih =>
    obtain ⟨k, v⟩ := e
    obtain ⟨hlt, hrest⟩ := List.pairwise_cons.1 hsorted
    rw [List.foldl_cons, ih _ hrest, find?_insert, lookup_cons]
    by_cases hk : k = key
    · subst hk
      have hnone : lookup k entries = none := lookup_eq_none fun e he hek => by
        have := hlt e he
        rw [hek, show compare k k = .eq from Std.ReflCmp.compare_self] at this
        cases this
      rw [hnone, if_pos rfl, if_pos rfl]
      rfl
    · rw [if_neg (Ne.symm hk), if_neg hk]

/-- Of the entries with a key the last one counts. -/
@[simp] theorem find?_ofList (l : List (κ × α)) (key : κ) :
    (ofList l).find? key = lookup key l.reverse := by
  suffices h : ∀ l : List (κ × α),
      (ofListWith (fun _ new => new) l).find? key = lookup key l.reverse from h l
  intro l
  fun_induction ofListWith (fun _ new : α => new) l with
  | case1 => rfl
  | case2 k v => rfl
  | case3 e e' rest all ihTake ihDrop =>
    rw [find?_mergeWith_new, ihTake, ihDrop, ← lookup_append, ← List.reverse_append,
      List.take_append_drop]

def joined [DecidableEq κ] (both : α → α → α) (key : κ) : List (κ × α) → Option α
  | [] => none
  | (k, v) :: rest => Option.merge both (if k = key then some v else none) (joined both key rest)

section joined
variable [DecidableEq κ] {both : α → α → α} {key : κ}

omit [Ord κ] [Std.LawfulEqOrd κ] [Std.TransOrd κ] in
theorem joined_eq_none {l : List (κ × α)} (h : ∀ e ∈ l, e.1 ≠ key) : joined both key l = none := by
  induction l with
  | nil => rfl
  | cons e l ih =>
    rw [joined, if_neg (h e List.mem_cons_self), ih fun d hd => h d (List.mem_cons_of_mem _ hd)]
    rfl

omit [Std.TransOrd κ] in
/-- In an ascending list there is at most one value to join. -/
theorem joined_eq_lookup {l : List (κ × α)} (h : l.Pairwise fun a b => compare a.1 b.1 = .lt) :
    joined both key l = lookup key l := by
  induction l with
  | nil => rfl
  | cons e l ih =>
    obtain ⟨k, v⟩ := e
    obtain ⟨hlt, hrest⟩ := List.pairwise_cons.1 h
    rw [joined, lookup_cons]
    by_cases hk : k = key
    · have hnone : joined both key l = none := joined_eq_none fun d hd hdk => by
        have := hlt d hd
        rw [hk, hdk, show compare key key = .eq from Std.ReflCmp.compare_self] at this
        cases this
      rw [if_pos hk, if_pos hk, hnone, Option.merge_none_right]
    · rw [if_neg hk, if_neg hk, Option.merge_none_left, ih hrest]

omit [Std.TransOrd κ] in
/-- Where a later value replaces an earlier one, the last one is left. -/
theorem joined_eq_lookup_reverse {l : List (κ × α)}
    (h : ∀ d ∈ l, ∀ e ∈ l, both d.2 e.2 = e.2) : joined both key l = lookup key l.reverse := by
  induction l with
  | nil => rfl
  | cons d l ih =>
    obtain ⟨k, v⟩ := d
    obtain ⟨hd, hrest⟩ := List.forall_mem_cons.1 h
    obtain ⟨-, hd⟩ := List.forall_mem_cons.1 hd
    have hall : ∀ d ∈ l, ∀ e ∈ l, both d.2 e.2 = e.2 := fun d hd e he =>
      (List.forall_mem_cons.1 (hrest d hd)).2 e he
    rw [joined, ih hall, List.reverse_cons, lookup_append, lookup_cons]
    cases hlater : lookup key l.reverse with
    | none => rw [Option.merge_none_right]; rfl
    | some w =>
      have hboth : both v w = w := hd _ (List.mem_reverse.1 (mem_of_lookup hlater))
      split
      · exact congrArg some hboth
      · rfl

variable [Std.Associative both]

omit [Ord κ] [Std.LawfulEqOrd κ] [Std.TransOrd κ] in
theorem joined_append (xs ys : List (κ × α)) :
    joined both key (xs ++ ys) = Option.merge both (joined both key xs) (joined both key ys) := by
  induction xs with
  | nil => rw [List.nil_append, joined, Option.merge_none_left]
  | cons e xs ih =>
    rw [List.cons_append, joined, joined, ih]
    exact (Std.Associative.assoc ..).symm

/-- A table built from a list joins the values with a key in their order. -/
theorem find?_ofListWith (l : List (κ × α)) :
    (ofListWith both l).find? key = joined both key l := by
  fun_induction ofListWith both l with
  | case1 => rfl
  | case2 k v =>
    rw [find?, singleton, lookup_cons, joined, joined, Option.merge_none_right]
    rfl
  | case3 e e' rest all ihTake ihDrop =>
    rw [find?_mergeWith, ihTake, ihDrop, ← joined_append, List.take_append_drop]

end joined

end SheetTemplate.Table
