/-!
Finite tables: keys, each with one value, in strictly ascending order. A table is determined by
what it holds under each key (`Table.ext`), so two tables that answer alike are equal.
-/
namespace SheetTemplate

/-- Entries in strictly ascending order of their keys. -/
structure Table (κ α : Type) [Ord κ] where
  entries : List (κ × α)
  sorted : entries.Pairwise fun a b => compare a.1 b.1 = .lt

namespace Table

variable {κ α β : Type} [Ord κ]

def empty : Table κ α := ⟨[], .nil⟩

/-- Value of the first entry with the key. -/
def lookup (key : κ) : List (κ × α) → Option α
  | [] => none
  | (k, v) :: rest => if compare k key = .eq then some v else lookup key rest

def find? (t : Table κ α) (key : κ) : Option α :=
  lookup key t.entries

def keys (t : Table κ α) : List κ :=
  t.entries.map (·.1)

def filter (t : Table κ α) (p : κ → α → Bool) : Table κ α :=
  ⟨t.entries.filter fun e => p e.1 e.2, t.sorted.filter _⟩

/-- Keys mapped by a function that keeps their order where it is defined; entries whose key has
no image are left out. -/
def mapKeys? (t : Table κ α) (f : κ → Option κ)
    (mono : ∀ a b a' b', compare a b = .lt → f a = some a' → f b = some b' →
      compare a' b' = .lt) : Table κ α where
  entries := t.entries.filterMap fun e => (f e.1).map (·, e.2)
  sorted := by
    refine t.sorted.filterMap _ ?_
    intro a b hab a' ha b' hb
    obtain ⟨x, hx, rfl⟩ := Option.map_eq_some_iff.1 ha
    obtain ⟨y, hy, rfl⟩ := Option.map_eq_some_iff.1 hb
    exact mono _ _ _ _ hab hx hy

def mapValues (t : Table κ α) (f : κ → α → β) : Table κ β where
  entries := t.entries.map fun e => (e.1, f e.1 e.2)
  sorted := List.pairwise_map.2 t.sorted

/-- Merge of two ascending lists: where both have a key, `both` gives the value. -/
def mergeEntries (both : α → α → α) : List (κ × α) → List (κ × α) → List (κ × α)
  | [], ys => ys
  | xs, [] => xs
  | (a, v) :: xs, (b, w) :: ys =>
    match compare a b with
    | .lt => (a, v) :: mergeEntries both xs ((b, w) :: ys)
    | .eq => (a, both v w) :: mergeEntries both xs ys
    | .gt => (b, w) :: mergeEntries both ((a, v) :: xs) ys
termination_by xs ys => xs.length + ys.length

/-- The keys of a merge are those of its two sides. -/
theorem key_mem_mergeEntries {both : α → α → α} {xs ys : List (κ × α)} {e : κ × α}
    (h : e ∈ mergeEntries both xs ys) : (∃ x ∈ xs, x.1 = e.1) ∨ ∃ y ∈ ys, y.1 = e.1 := by
  fun_induction mergeEntries both xs ys with
  | case1 ys => exact Or.inr ⟨e, h, rfl⟩
  | case2 xs => exact Or.inl ⟨e, h, rfl⟩
  | case3 a v xs b w ys _ ih =>
    rcases List.mem_cons.1 h with rfl | h
    · exact Or.inl ⟨(a, v), List.mem_cons_self, rfl⟩
    · exact (ih h).imp_left fun ⟨x, hm, hk⟩ => ⟨x, List.mem_cons_of_mem _ hm, hk⟩
  | case4 a v xs b w ys _ ih =>
    rcases List.mem_cons.1 h with rfl | h
    · exact Or.inl ⟨(a, v), List.mem_cons_self, rfl⟩
    · exact (ih h).imp (fun ⟨x, hm, hk⟩ => ⟨x, List.mem_cons_of_mem _ hm, hk⟩)
        fun ⟨y, hm, hk⟩ => ⟨y, List.mem_cons_of_mem _ hm, hk⟩
  | case5 a v xs b w ys _ ih =>
    rcases List.mem_cons.1 h with rfl | h
    · exact Or.inr ⟨(b, w), List.mem_cons_self, rfl⟩
    · exact (ih h).imp_right fun ⟨y, hm, hk⟩ => ⟨y, List.mem_cons_of_mem _ hm, hk⟩

variable [Std.LawfulEqOrd κ] [Std.TransOrd κ]

theorem mergeEntries_sorted {both : α → α → α} {xs ys : List (κ × α)}
    (hx : xs.Pairwise fun a b => compare a.1 b.1 = .lt)
    (hy : ys.Pairwise fun a b => compare a.1 b.1 = .lt) :
    (mergeEntries both xs ys).Pairwise fun a b => compare a.1 b.1 = .lt := by
  fun_induction mergeEntries both xs ys with
  | case1 => exact hy
  | case2 => exact hx
  | case3 a v xs b w ys hab ih =>
    refine List.pairwise_cons.2 ⟨fun e he => ?_, ih (List.pairwise_cons.1 hx).2 hy⟩
    rcases key_mem_mergeEntries he with ⟨x, hm, hk⟩ | ⟨y, hm, hk⟩
    · rw [← hk]
      exact (List.pairwise_cons.1 hx).1 x hm
    · rw [← hk]
      rcases List.mem_cons.1 hm with rfl | hm
      · exact hab
      · exact Std.TransCmp.lt_trans hab ((List.pairwise_cons.1 hy).1 y hm)
  | case4 a v xs b w ys hab ih =>
    obtain rfl := Std.LawfulEqOrd.eq_of_compare hab
    refine List.pairwise_cons.2
      ⟨fun e he => ?_, ih (List.pairwise_cons.1 hx).2 (List.pairwise_cons.1 hy).2⟩
    rcases key_mem_mergeEntries he with ⟨x, hm, hk⟩ | ⟨y, hm, hk⟩
    · rw [← hk]
      exact (List.pairwise_cons.1 hx).1 x hm
    · rw [← hk]
      exact (List.pairwise_cons.1 hy).1 y hm
  | case5 a v xs b w ys hab ih =>
    have hba : compare b a = .lt := Std.OrientedCmp.gt_iff_lt.1 hab
    refine List.pairwise_cons.2 ⟨fun e he => ?_, ih hx (List.pairwise_cons.1 hy).2⟩
    rcases key_mem_mergeEntries he with ⟨x, hm, hk⟩ | ⟨y, hm, hk⟩
    · rw [← hk]
      rcases List.mem_cons.1 hm with rfl | hm
      · exact hba
      · exact Std.TransCmp.lt_trans hba ((List.pairwise_cons.1 hx).1 x hm)
    · rw [← hk]
      exact (List.pairwise_cons.1 hy).1 y hm

def mergeWith (both : α → α → α) (s t : Table κ α) : Table κ α :=
  ⟨mergeEntries both s.entries t.entries, mergeEntries_sorted s.sorted t.sorted⟩

def singleton (key : κ) (value : α) : Table κ α :=
  ⟨[(key, value)], List.pairwise_singleton _ _⟩

/-- The table with `value` under `key`, in place of what was there. -/
def insert (t : Table κ α) (key : κ) (value : α) : Table κ α :=
  mergeWith (fun _ new => new) t (singleton key value)

/-- The table of a list of entries. Where several have a key, `both` joins an earlier value with a
later one. The two halves of the list are built first and then merged. -/
def ofListWith (both : α → α → α) : List (κ × α) → Table κ α
  | [] => empty
  | [(k, v)] => singleton k v
  | e :: e' :: rest =>
    let all := e :: e' :: rest
    mergeWith both (ofListWith both (all.take (all.length / 2)))
      (ofListWith both (all.drop (all.length / 2)))
termination_by l => l.length
decreasing_by all_goals simp_all; omega

/-- The table of a list of entries, of which a later one replaces an earlier one of its key. -/
def ofList (entries : List (κ × α)) : Table κ α :=
  ofListWith (fun _ new => new) entries

omit [Std.TransOrd κ] in
/-- In an ascending list, a key has the value that stands with it. -/
theorem lookup_eq_some_iff {l : List (κ × α)}
    (h : l.Pairwise fun a b => compare a.1 b.1 = .lt) {key : κ} {value : α} :
    lookup key l = some value ↔ (key, value) ∈ l := by
  induction l with
  | nil => simp [lookup]
  | cons e rest ih =>
    obtain ⟨k, v⟩ := e
    have hlt := (List.pairwise_cons.1 h).1
    have hrest := ih (List.pairwise_cons.1 h).2
    by_cases hk : compare k key = .eq
    · obtain rfl := Std.LawfulEqOrd.eq_of_compare hk
      have hout : (k, value) ∉ rest := fun hm => by
        have := hlt _ hm
        rw [hk] at this
        exact absurd this (by decide)
      simp [lookup, hout, eq_comm]
    · have hne : key ≠ k := fun he => hk (he ▸ Std.ReflCmp.compare_self)
      simp [lookup, hk, hrest, hne]

omit [Std.TransOrd κ] in
theorem find?_eq_some_iff {t : Table κ α} {key : κ} {value : α} :
    t.find? key = some value ↔ (key, value) ∈ t.entries :=
  lookup_eq_some_iff t.sorted

/-- Ascending lists with the same members are equal. -/
private theorem eq_of_mem_iff {l m : List (κ × α)}
    (hl : l.Pairwise fun a b => compare a.1 b.1 = .lt)
    (hm : m.Pairwise fun a b => compare a.1 b.1 = .lt) (h : ∀ e, e ∈ l ↔ e ∈ m) : l = m := by
  induction l generalizing m with
  | nil =>
    cases m with
    | nil => rfl
    | cons e _ => exact absurd ((h e).2 List.mem_cons_self) List.not_mem_nil
  | cons a l ih =>
    cases m with
    | nil => exact absurd ((h a).1 List.mem_cons_self) List.not_mem_nil
    | cons b m =>
      have hl' := List.pairwise_cons.1 hl
      have hm' := List.pairwise_cons.1 hm
      have irrefl (k : κ) : compare k k ≠ .lt := by
        rw [show compare k k = .eq from Std.ReflCmp.compare_self]
        decide
      have hab : a = b := by
        rcases List.mem_cons.1 ((h a).1 List.mem_cons_self) with hab | ham
        · exact hab
        · rcases List.mem_cons.1 ((h b).2 List.mem_cons_self) with hba | hbl
          · exact hba.symm
          · exact absurd (Std.TransCmp.lt_trans (hl'.1 b hbl) (hm'.1 a ham)) (irrefl _)
      subst hab
      congr 1
      refine ih hl'.2 hm'.2 fun e => ⟨fun he => ?_, fun he => ?_⟩
      · rcases List.mem_cons.1 ((h e).1 (List.mem_cons_of_mem _ he)) with rfl | hem
        · exact absurd (hl'.1 _ he) (irrefl _)
        · exact hem
      · rcases List.mem_cons.1 ((h e).2 (List.mem_cons_of_mem _ he)) with rfl | hel
        · exact absurd (hm'.1 _ he) (irrefl _)
        · exact hel

/-- A table is determined by what it holds under each key. -/
theorem ext {s t : Table κ α} (h : ∀ key, s.find? key = t.find? key) : s = t := by
  obtain ⟨l, hl⟩ := s
  obtain ⟨m, hm⟩ := t
  have hlm : l = m := eq_of_mem_iff hl hm fun e => by
    rw [← Prod.eta e, ← lookup_eq_some_iff hl, ← lookup_eq_some_iff hm]
    exact Iff.of_eq (congrArg (· = some e.2) (h e.1))
  subst hlm
  rfl

end Table

end SheetTemplate
