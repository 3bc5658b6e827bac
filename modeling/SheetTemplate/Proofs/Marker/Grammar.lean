import SheetTemplate.Proofs.Marker.Listing
import SheetTemplate.Proofs.Text.Blank
import SheetTemplate.Proofs.Text.Run
/-!
The grammar of markers, said without the scan. Listing a text gives the one row of places at which
markers stand, apart from each other and ascending, such that none begins outside of them.
-/
namespace SheetTemplate

/-- The texts that are markers of a scope, with what stands between the brackets. -/
inductive IsMarker : Scope → List Char → List Char → Prop
  | root {content : List Char} (hne : content ≠ []) (hout : '}' ∉ content) :
      IsMarker .root content ('{' :: '{' :: (content ++ ['}', '}']))
  | element {content : List Char} (hne : content ≠ []) (hout : ']' ∉ content)
      (hfirst : content.head? ≠ some '.')
      (hrest : ∀ key property, content = key ++ '.' :: property → '.' ∉ key → property ≠ []) :
      IsMarker .element content ('[' :: '[' :: (content ++ [']', ']']))

/-- The marker is the text at its place, which begins and ends between characters. -/
def PlacedMarker.StandsIn (p : PlacedMarker) (start : Nat) (cs : List Char) : Prop :=
  ∃ before after, cs = before ++ (p.marker.raw ++ after) ∧ p.start = start + byteLength before ∧
    p.stop = p.start + byteLength p.marker.raw

/-- The leftmost decomposition of characters that begin at a byte. -/
structure Decomposes (start : Nat) (cs : List Char) (ps : List PlacedMarker) : Prop where
  isMarker : ∀ p ∈ ps, IsMarker p.marker.scope p.marker.content p.marker.raw
  standsIn : ∀ p ∈ ps, p.StandsIn start cs
  ascending : ps.Pairwise fun a b => a.stop ≤ b.start
  outside : ∀ before raw after scope content, cs = before ++ (raw ++ after) →
    IsMarker scope content raw →
      ∃ p ∈ ps, p.start ≤ start + byteLength before ∧ start + byteLength before < p.stop

def trimmed (cs : List Char) : String :=
  String.ofList (Text.trimChars cs)

def cutPath (path : String) : String × Option String :=
  (String.ofList (path.toList.takeWhile (· ≠ '.')),
    match path.toList.dropWhile (· ≠ '.') with
    | [] => none
    | _ :: rest => some (String.ofList rest))

/-- What the path of a marker is made of. The path of an element marker leads to its key and its
property: it is cut where the content has its first dot. -/
inductive Marker.Parted : Marker → Prop
  | root {m : Marker} (hscope : m.scope = .root) (hpath : m.path = trimmed m.content) : Parted m
  | bare {m : Marker} (hscope : m.scope = .element) (hdot : '.' ∉ m.content)
      (hpath : m.path = trimmed m.content) (hkey : m.key = trimmed m.content)
      (hproperty : m.property? = none) (hcut : cutPath m.path = (m.key, m.property?)) : Parted m
  | dotted {m : Marker} {key property : List Char} (hscope : m.scope = .element)
      (hcontent : m.content = key ++ '.' :: property) (hdot : '.' ∉ key)
      (hpath : m.path = trimmed key ++ "." ++ trimmed property) (hkey : m.key = trimmed key)
      (hproperty : m.property? = some (trimmed property))
      (hcut : cutPath m.path = (m.key, m.property?)) : Parted m

/-! ### Markers -/

/-- The scan takes what is in the grammar, and nothing else. -/
theorem isMarker_iff {s : Scope} {content raw : List Char} :
    IsMarker s content raw ↔
      (⟨s, content⟩ : Marker).Proper ∧ raw = (⟨s, content⟩ : Marker).raw := by
  constructor
  · intro h
    cases h with
    | root hne hout => exact ⟨⟨by simpa [Scope.admits] using hne, hout⟩, rfl⟩
    | element hne hout hfirst hrest =>
      refine ⟨⟨?_, hout⟩, rfl⟩
      simp only [Scope.admits, Bool.and_eq_true, Bool.not_eq_true', bne_iff_ne]
      refine ⟨⟨by simpa using hne, hfirst⟩, fun hdot => ?_⟩
      obtain ⟨-, key, hcontent, hkey⟩ := Text.dropWhile_ne_eq_cons_iff.1 hdot
      exact hrest key [] hcontent hkey rfl
  · rintro ⟨⟨hadmits, hout⟩, rfl⟩
    cases s with
    | root => exact .root (by simpa [Scope.admits] using hadmits) hout
    | element =>
      simp only [Scope.admits, Bool.and_eq_true, Bool.not_eq_true', bne_iff_ne] at hadmits
      refine .element (by simpa using hadmits.1.1) hout hadmits.1.2 ?_
      rintro key _ hcontent hkey rfl
      exact hadmits.2 (Text.dropWhile_ne_eq_cons_iff.2 ⟨rfl, key, hcontent, hkey⟩)

theorem IsMarker.raw_ne_nil {s : Scope} {content raw : List Char} (h : IsMarker s content raw) :
    raw ≠ [] := by
  cases h <;> exact List.cons_ne_nil _ _

@[simp] theorem byteLength_append (cs ds : List Char) :
    byteLength (cs ++ ds) = byteLength cs + byteLength ds := by
  induction cs with
  | nil => exact (Nat.zero_add _).symm
  | cons c cs ih => simp [ih, Nat.add_assoc]

theorem eq_nil_of_byteLength_eq_zero {cs : List Char} (h : byteLength cs = 0) : cs = [] := by
  cases cs with
  | nil => rfl
  | cons c cs =>
    have hpos := c.utf8Size_pos
    rw [byteLength_cons] at h
    omega

/-- Of two beginnings of a text the one with fewer bytes is a beginning of the other. -/
theorem exists_append_of_byteLength_le {xs ys rest rest' : List Char}
    (h : xs ++ rest = ys ++ rest') (hle : byteLength xs ≤ byteLength ys) :
    ∃ zs, ys = xs ++ zs ∧ rest = zs ++ rest' := by
  rcases List.append_eq_append_iff.1 h with ⟨zs, rfl, hrest⟩ | ⟨zs, rfl, rfl⟩
  · exact ⟨zs, rfl, hrest⟩
  · rw [byteLength_append] at hle
    obtain rfl : zs = [] := eq_nil_of_byteLength_eq_zero (by omega)
    exact ⟨[], by simp, by simp⟩

/-! ### Decompositions -/

section steps
variable {start : Nat} {ps : List PlacedMarker}

private theorem decomposes_nil_iff : Decomposes start [] ps ↔ ps = [] := by
  constructor
  · intro h
    apply List.eq_nil_iff_forall_not_mem.2
    intro p hp
    obtain ⟨before, after, heq, -⟩ := h.standsIn p hp
    have hraw := (h.isMarker p hp).raw_ne_nil
    simp [hraw] at heq
  · rintro rfl
    refine ⟨by simp, by simp, .nil, fun before raw after scope content heq hmarker => ?_⟩
    simp [hmarker.raw_ne_nil] at heq

theorem frontOf?_ne_none {s : Scope} {content raw : List Char} (h : IsMarker s content raw)
    (after : List Char) : Marker.frontOf? [.root, .element] (raw ++ after) ≠ none := by
  obtain ⟨hproper, rfl⟩ := isMarker_iff.1 h
  have hs : s ∈ [Scope.root, .element] := by cases s <;> decide
  rw [Marker.frontOf?_raw_append hproper hs]
  exact Option.some_ne_none _

private theorem decomposes_cons_iff {c : Char} {cs : List Char}
    (hnone : Marker.frontOf? [.root, .element] (c :: cs) = none) :
    Decomposes start (c :: cs) ps ↔ Decomposes (start + c.utf8Size) cs ps := by
  constructor
  · intro h
    refine ⟨h.isMarker, fun p hp => ?_, h.ascending, ?_⟩
    · obtain ⟨before, after, heq, hstart, hstop⟩ := h.standsIn p hp
      cases before with
      | nil => exact absurd (heq ▸ hnone) (frontOf?_ne_none (h.isMarker p hp) after)
      | cons d before =>
        obtain ⟨rfl, htail⟩ := List.cons.inj heq
        exact ⟨before, after, htail, by simp [hstart, Nat.add_assoc], hstop⟩
    · intro before raw after scope content heq hmarker
      have h' := h.outside (c :: before) raw after scope content (by rw [heq]; rfl) hmarker
      rwa [byteLength_cons, ← Nat.add_assoc] at h'
  · intro h
    refine ⟨h.isMarker, fun p hp => ?_, h.ascending, ?_⟩
    · obtain ⟨before, after, rfl, hstart, hstop⟩ := h.standsIn p hp
      exact ⟨c :: before, after, rfl, by simp [hstart, Nat.add_assoc], hstop⟩
    · intro before raw after scope content heq hmarker
      cases before with
      | nil => exact absurd (heq ▸ hnone) (frontOf?_ne_none hmarker after)
      | cons d before =>
        obtain ⟨rfl, htail⟩ := List.cons.inj heq
        rw [byteLength_cons, ← Nat.add_assoc]
        exact h.outside before raw after scope content htail hmarker

/-- The marker at the front is taken first. -/
theorem Decomposes.exists_cons {m : Marker} {rest : List Char} (hproper : m.Proper)
    (h : Decomposes start (m.raw ++ rest) ps) :
    ∃ qs, ps = ⟨m, start, start + byteLength m.raw⟩ :: qs := by
  have hmem (s : Scope) : s ∈ [Scope.root, .element] := by cases s <;> decide
  obtain ⟨p, hp, hle, hlt⟩ :=
    h.outside [] m.raw rest m.scope m.content rfl (isMarker_iff.2 ⟨hproper, rfl⟩)
  obtain ⟨before, after, heq, hstart, hstop⟩ := h.standsIn p hp
  have hnil : byteLength [] = 0 := rfl
  obtain rfl : before = [] := eq_nil_of_byteLength_eq_zero (by omega)
  -- At one place stands one marker only.
  have hfront := Marker.frontOf?_raw_append (isMarker_iff.1 (h.isMarker p hp)).1 (hmem _) after
  rw [← List.nil_append (p.marker.raw ++ after), ← heq, Marker.frontOf?_raw_append hproper (hmem _)]
    at hfront
  obtain hm := Option.some.inj hfront
  cases ps with
  | nil => cases hp
  | cons q qs =>
    obtain ⟨_, _, -, hqstart, hqstop⟩ := h.standsIn q List.mem_cons_self
    have hpos := byteLength_raw_pos q.marker
    rcases List.mem_cons.1 hp with rfl | hp
    · obtain ⟨marker, first, last⟩ := p
      dsimp only at hm hstart hstop
      subst hm hstop hstart
      exact ⟨qs, rfl⟩
    · have hq := (List.pairwise_cons.1 h.ascending).1 p hp
      omega

private theorem decomposes_raw_append_iff {m : Marker} {rest : List Char} (hproper : m.Proper) :
    Decomposes start (m.raw ++ rest) ps ↔ ∃ qs, ps = ⟨m, start, start + byteLength m.raw⟩ :: qs ∧
      Decomposes (start + byteLength m.raw) rest qs := by
  constructor
  · intro h
    obtain ⟨qs, rfl⟩ := h.exists_cons hproper
    obtain ⟨hafter, hascending⟩ := List.pairwise_cons.1 h.ascending
    obtain ⟨-, hmarkers⟩ := List.forall_mem_cons.1 h.isMarker
    refine ⟨qs, rfl, hmarkers, fun p hp => ?_, hascending, ?_⟩
    · obtain ⟨before, after, heq, hstart, hstop⟩ := h.standsIn p (List.mem_cons_of_mem _ hp)
      have hle := hafter p hp
      obtain ⟨before, rfl, hrest⟩ :=
        exists_append_of_byteLength_le heq (by dsimp only at hle; omega)
      exact ⟨before, after, hrest, by simp [hstart, Nat.add_assoc], hstop⟩
    · intro before raw after scope content heq hmarker
      obtain ⟨p, hp, hle, hlt⟩ := h.outside (m.raw ++ before) raw after scope content
        (by rw [heq, List.append_assoc]) hmarker
      rw [byteLength_append, ← Nat.add_assoc] at hle hlt
      rcases List.mem_cons.1 hp with rfl | hp
      · dsimp only at hlt
        omega
      · exact ⟨p, hp, hle, hlt⟩
  · rintro ⟨qs, rfl, h⟩
    have hself : IsMarker m.scope m.content m.raw := isMarker_iff.2 ⟨hproper, rfl⟩
    refine ⟨List.forall_mem_cons.2 ⟨hself, h.isMarker⟩, List.forall_mem_cons.2 ⟨?_, ?_⟩,
      List.pairwise_cons.2 ⟨?_, h.ascending⟩, ?_⟩
    · exact ⟨[], rest, rfl, rfl, rfl⟩
    · intro p hp
      obtain ⟨before, after, rfl, hstart, hstop⟩ := h.standsIn p hp
      exact ⟨m.raw ++ before, after, by rw [List.append_assoc],
        by simp [hstart, Nat.add_assoc], hstop⟩
    · intro p hp
      obtain ⟨before, after, -, hstart, -⟩ := h.standsIn p hp
      dsimp only
      omega
    · intro before raw after scope content heq hmarker
      by_cases hlt : byteLength before < byteLength m.raw
      · exact ⟨_, List.mem_cons_self, Nat.le_add_right _ _, by dsimp only; omega⟩
      · obtain ⟨before, rfl, hrest⟩ := exists_append_of_byteLength_le heq (by omega)
        obtain ⟨p, hp, hle, hlt⟩ := h.outside before raw after scope content hrest hmarker
        rw [byteLength_append, ← Nat.add_assoc]
        exact ⟨p, List.mem_cons_of_mem _ hp, hle, hlt⟩

end steps

private theorem decomposes_iff (start : Nat) (cs : List Char) (ps : List PlacedMarker) :
    Decomposes start cs ps ↔ ps = placed start (pieces [.root, .element] cs) := by
  induction cs using pieces_induction [.root, .element] generalizing start ps with
  | nil =>
    rw [decomposes_nil_iff, pieces]
    rfl
  | plain c cs hnone ih => rw [decomposes_cons_iff hnone, ih, placed_cons_of_none hnone]
  | marker m rest hproper hm ih =>
    rw [decomposes_raw_append_iff hproper, placed_raw_append hproper hm]
    simp only [ih, exists_eq_right]

/-! ### Paths -/

theorem dot_not_mem_trimmed {cs : List Char} (h : '.' ∉ cs) : '.' ∉ (trimmed cs).toList := by
  rw [trimmed, String.toList_ofList]
  exact fun hmem => h (Text.mem_of_mem_trimChars hmem)

private theorem cutPath_trimmed {cs : List Char} (h : '.' ∉ cs) :
    cutPath (trimmed cs) = (trimmed cs, none) := by
  have hout := dot_not_mem_trimmed h
  simp only [cutPath, Text.takeWhile_ne_of_not_mem hout, Text.dropWhile_ne_of_not_mem hout,
    String.ofList_toList]

private theorem cutPath_append {cs : List Char} (h : '.' ∉ cs) (property : String) :
    cutPath (trimmed cs ++ "." ++ property) = (trimmed cs, some property) := by
  have hout := dot_not_mem_trimmed h
  have hpath : (trimmed cs ++ "." ++ property).toList =
      (trimmed cs).toList ++ '.' :: property.toList := by simp
  simp only [cutPath, hpath, Text.takeWhile_ne_append_cons hout, Text.dropWhile_ne_append_cons hout,
    String.ofList_toList]

theorem Marker.parts_of_bare {m : Marker} (hdot : '.' ∉ m.content) :
    m.key = trimmed m.content ∧ m.property? = none := by
  constructor
  · rw [key, Text.takeWhile_ne_of_not_mem hdot]
    rfl
  · rw [property?, Text.dropWhile_ne_of_not_mem hdot]

theorem Marker.parts_of_dotted {m : Marker} {key property : List Char}
    (hcontent : m.content = key ++ '.' :: property) (hdot : '.' ∉ key) :
    m.key = trimmed key ∧ m.property? = some (trimmed property) := by
  constructor
  · rw [Marker.key, hcontent, Text.takeWhile_ne_append_cons hdot]
    rfl
  · rw [property?, hcontent, Text.dropWhile_ne_append_cons hdot]
    rfl

theorem Marker.parted (m : Marker) : m.Parted := by
  cases hscope : m.scope with
  | root => exact .root hscope (by rw [path, hscope]; rfl)
  | element =>
    by_cases hdot : '.' ∈ m.content
    · obtain ⟨key, property, hcontent, hdot⟩ := List.eq_append_cons_of_mem hdot
      obtain ⟨hkey, hproperty⟩ := parts_of_dotted hcontent hdot
      have hpath : m.path = trimmed key ++ "." ++ trimmed property := by
        simp only [path, hscope, hproperty, hkey]
      exact .dotted hscope hcontent hdot hpath hkey hproperty
        (by rw [hpath, cutPath_append hdot, hkey, hproperty])
    · obtain ⟨hkey, hproperty⟩ := parts_of_bare hdot
      have hpath : m.path = trimmed m.content := by
        simp only [path, hscope, hproperty, hkey]
      refine .bare hscope hdot hpath hkey hproperty ?_
      rw [hpath, cutPath_trimmed hdot, hkey, hproperty]

/-- Listing a text gives its leftmost decomposition, which is the only one, and the parts of each
marker's path are those of its content. -/
theorem placedMarkers_decomposes (t : String) (ps : List PlacedMarker) (m : Marker) :
    (Decomposes 0 t.toList ps ↔ ps = placedMarkers t) ∧ m.Parted :=
  ⟨decomposes_iff 0 t.toList ps, m.parted⟩

end SheetTemplate
