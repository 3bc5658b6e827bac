import Mathlib.Data.List.Pairwise
import SheetTemplate.Inspection
import SheetTemplate.Proofs.Marker.Scan
/-!
Listing against filling. The survey of a template scans each text once for the markers of both
scopes; binding and filling scan it for one scope at a time. The scans find the same markers in a
text exactly if those of one scope do not overlap those of the other.
-/
namespace SheetTemplate

/-- The markers of a scope that filling finds in a text, with their places. -/
def seenMarkers (scope : Scope) (t : String) : List PlacedMarker :=
  placed 0 (pieces [scope] t.toList)

/-- The markers of a scope that the survey lists for a text, with their places. -/
def listedMarkers (scope : Scope) (t : String) : List PlacedMarker :=
  (placedMarkers t).filter fun p => p.marker.scope = scope

/-- No marker begins before the other ends. -/
def PlacedMarker.Beside (a b : PlacedMarker) : Prop :=
  a.stop ≤ b.start ∨ b.stop ≤ a.start

/-- No root marker of a text overlaps an element marker. -/
def MarkersApart (t : String) : Prop :=
  ∀ a ∈ seenMarkers .root t, ∀ b ∈ seenMarkers .element t, a.Beside b

instance : Std.Symm PlacedMarker.Beside :=
  ⟨fun _ _ => Or.symm⟩

instance (a b : PlacedMarker) : Decidable (a.Beside b) :=
  inferInstanceAs (Decidable (_ ∨ _))

instance (t : String) : Decidable (MarkersApart t) :=
  inferInstanceAs (Decidable (∀ a ∈ seenMarkers .root t, ∀ b ∈ seenMarkers .element t, a.Beside b))

def Sheet.listedKeys (s : Sheet) (row : Nat) : List String :=
  (s.markerEntries.filter fun e => e.cell.row = row ∧ e.marker.scope = .element).map fun e =>
    e.marker.key

/-! ### Places -/

@[simp] theorem byteLength_cons (c : Char) (cs : List Char) :
    byteLength (c :: cs) = c.utf8Size + byteLength cs := rfl

theorem byteLength_raw_pos (m : Marker) : 0 < byteLength m.raw := by
  have hpos := m.scope.opening.utf8Size_pos
  rw [Marker.raw, byteLength_cons]
  omega

private theorem map_marker_placed (start : Nat) (ps : List Piece) :
    (placed start ps).map PlacedMarker.marker = ps.filterMap Piece.marker? := by
  induction ps generalizing start with
  | nil => rfl
  | cons p ps ih =>
    cases p with
    | plain c => exact ih _
    | marker m => exact congrArg (m :: ·) (ih _)

/-- Binding and filling act on the markers seen. -/
theorem map_marker_seenMarkers (scope : Scope) (t : String) :
    (seenMarkers scope t).map PlacedMarker.marker = markersOf [scope] t :=
  map_marker_placed 0 _

theorem bounds_of_mem_placed {start : Nat} {ps : List Piece} {p : PlacedMarker}
    (h : p ∈ placed start ps) : start ≤ p.start ∧ p.start < p.stop := by
  induction ps generalizing start with
  | nil => cases h
  | cons q ps ih =>
    cases q with
    | plain c =>
      obtain ⟨hstart, hlt⟩ := ih h
      exact ⟨by omega, hlt⟩
    | marker m =>
      have hpos := byteLength_raw_pos m
      rcases List.mem_cons.1 h with rfl | h
      · exact ⟨Nat.le_refl _, by dsimp only; omega⟩
      · obtain ⟨hstart, hlt⟩ := ih h
        exact ⟨by omega, hlt⟩

theorem placed_pairwise (start : Nat) (ps : List Piece) :
    (placed start ps).Pairwise fun a b => a.stop ≤ b.start := by
  induction ps generalizing start with
  | nil => exact .nil
  | cons q ps ih =>
    cases q with
    | plain c => exact ih _
    | marker m =>
      exact List.pairwise_cons.2 ⟨fun b hb => (bounds_of_mem_placed hb).1, ih _⟩

theorem placed_cons_of_none {scopes : List Scope} {c : Char} {cs : List Char}
    (h : Marker.frontOf? scopes (c :: cs) = none) (start : Nat) :
    placed start (pieces scopes (c :: cs)) = placed (start + c.utf8Size) (pieces scopes cs) := by
  rw [pieces_cons_of_none h]
  rfl

theorem placed_raw_append {scopes : List Scope} {m : Marker} (h : m.Proper)
    (hm : m.scope ∈ scopes) (start : Nat) (rest : List Char) :
    placed start (pieces scopes (m.raw ++ rest)) =
      ⟨m, start, start + byteLength m.raw⟩ ::
        placed (start + byteLength m.raw) (pieces scopes rest) := by
  rw [pieces_raw_append h hm]
  rfl

/-- A scan whose markers all begin behind some characters steps over these one by one. -/
theorem placed_append_of_le {scopes : List Scope} {skipped rest : List Char} {start : Nat}
    (h : ∀ p ∈ placed start (pieces scopes (skipped ++ rest)),
      start + byteLength skipped ≤ p.start) :
    placed start (pieces scopes (skipped ++ rest)) =
      placed (start + byteLength skipped) (pieces scopes rest) := by
  induction skipped generalizing start with
  | nil => rfl
  | cons c skipped ih =>
    have hpos := c.utf8Size_pos
    simp only [List.cons_append, byteLength_cons] at h ⊢
    cases hfront : Marker.frontOf? scopes (c :: (skipped ++ rest)) with
    | none =>
      rw [placed_cons_of_none hfront] at h ⊢
      rw [ih fun p hp => by have := h p hp; omega, Nat.add_assoc]
    | some m =>
      -- A marker that begins with the first of these characters would begin before the last.
      obtain ⟨hm, hproper, rest', hrest⟩ := Marker.frontOf?_eq_some hfront
      rw [hrest, placed_raw_append hproper hm] at h
      have hbegin := h _ List.mem_cons_self
      dsimp only at hbegin
      omega

/-! ### The scans -/

/-- Markers of different scopes that are found each on its own do not overlap. -/
def ScansApart (start : Nat) (cs : List Char) : Prop :=
  ∀ s s', s ≠ s' → ∀ a ∈ placed start (pieces [s] cs), ∀ b ∈ placed start (pieces [s'] cs),
    a.Beside b

private theorem scansApart_iff_markersApart (t : String) :
    ScansApart 0 t.toList ↔ MarkersApart t := by
  constructor
  · intro h a ha b hb
    exact h .root .element (by decide) a ha b hb
  · intro h s s' hne a ha b hb
    cases s with
    | root =>
      cases s' with
      | root => exact absurd rfl hne
      | element => exact h a ha b hb
    | element =>
      cases s' with
      | root => exact (h b hb a ha).symm
      | element => exact absurd rfl hne

private theorem mem_scopes (s : Scope) : s ∈ [Scope.root, Scope.element] := by
  cases s <;> decide

/-- Where a marker begins that overlaps none of another scope, the scan for its scope takes it and
the scan for the other steps over it. -/
theorem placed_of_scansApart {start : Nat} {m : Marker} {rest : List Char} (hproper : m.Proper)
    (h : ScansApart start (m.raw ++ rest)) (s : Scope) :
    placed start (pieces [s] (m.raw ++ rest)) =
      if m.scope = s then ⟨m, start, start + byteLength m.raw⟩ ::
        placed (start + byteLength m.raw) (pieces [s] rest)
      else placed (start + byteLength m.raw) (pieces [s] rest) := by
  have htaken := placed_raw_append hproper (List.mem_singleton.2 rfl) start rest
  by_cases hs : m.scope = s
  · rw [if_pos hs, ← hs, htaken]
  · rw [if_neg hs]
    apply placed_append_of_le
    intro p hp
    have hself : ⟨m, start, start + byteLength m.raw⟩ ∈
        placed start (pieces [m.scope] (m.raw ++ rest)) := by
      rw [htaken]
      exact List.mem_cons_self
    obtain ⟨hbegin, hlt⟩ := bounds_of_mem_placed hp
    rcases h m.scope s hs _ hself p hp with hle | hle
    · exact hle
    · dsimp only at hle
      omega

theorem ScansApart.rest {start : Nat} {m : Marker} {rest : List Char} (hproper : m.Proper)
    (h : ScansApart start (m.raw ++ rest)) : ScansApart (start + byteLength m.raw) rest := by
  have hmem {s : Scope} {p : PlacedMarker}
      (hp : p ∈ placed (start + byteLength m.raw) (pieces [s] rest)) :
      p ∈ placed start (pieces [s] (m.raw ++ rest)) := by
    rw [placed_of_scansApart hproper h s]
    split
    · exact List.mem_cons_of_mem _ hp
    · exact hp
  intro s s' hne a ha b hb
  exact h s s' hne a (hmem ha) b (hmem hb)

/-- Without overlaps the scan for both scopes finds what the scans for each of them find. -/
theorem filter_placed_of_scansApart {start : Nat} {cs : List Char} (h : ScansApart start cs)
    (s : Scope) :
    (placed start (pieces [.root, .element] cs)).filter (fun p => p.marker.scope = s) =
      placed start (pieces [s] cs) := by
  induction cs using pieces_induction [.root, .element] generalizing start with
  | nil =>
    rw [pieces, pieces]
    rfl
  | plain c cs hnone ih =>
    have hfront (s : Scope) : Marker.frontOf? [s] (c :: cs) = none := by
      rw [Marker.frontOf?_singleton]
      exact Marker.frontOf?_eq_none_iff.1 hnone s (mem_scopes s)
    rw [placed_cons_of_none hnone, placed_cons_of_none (hfront s)]
    apply ih
    intro s s' hne a ha b hb
    apply h s s' hne
    · rwa [placed_cons_of_none (hfront s)]
    · rwa [placed_cons_of_none (hfront s')]
  | marker m rest hproper hm ih =>
    rw [placed_raw_append hproper hm, placed_of_scansApart hproper h s, List.filter_cons,
      ih (h.rest hproper)]
    simp only [decide_eq_true_eq]

/-- A text is listed as it is seen exactly if its root markers and its element markers do not
overlap. -/
theorem forall_listedMarkers_eq_iff (t : String) :
    (∀ scope, listedMarkers scope t = seenMarkers scope t) ↔ MarkersApart t := by
  constructor
  · intro h a ha b hb
    rw [← h, listedMarkers, List.mem_filter, decide_eq_true_eq] at ha hb
    have hne : a ≠ b := by
      rintro rfl
      rw [ha.2] at hb
      cases hb.2
    have hpairwise : (placedMarkers t).Pairwise PlacedMarker.Beside :=
      (placed_pairwise 0 _).imp Or.inl
    exact hpairwise.forall ha.1 hb.1 hne
  · intro h scope
    exact filter_placed_of_scansApart ((scansApart_iff_markersApart t).2 h) scope

/-! ### Rows -/

namespace Sheet

private theorem listedKeys_eq (s : Sheet) (row : Nat) : s.listedKeys row =
    (s.rowTexts row).flatMap fun t => (listedMarkers .element t).map fun p => p.marker.key := by
  unfold listedKeys markerEntries rowTexts rowCells
  induction s.cells.entries with
  | nil => rfl
  | cons e rest ih =>
    obtain ⟨place, cell⟩ := e
    rw [List.flatMap_cons, List.filter_append, List.map_append, ih, List.filter_cons]
    cases ht : cell.value.text? with
    | none => by_cases hrow : place.row = row <;> simp [hrow, ht]
    | some t =>
      by_cases hrow : place.row = row
      · simp [hrow, ht, listedMarkers, List.filter_map, Function.comp_def]
      · simp [hrow, ht]

/-- The keys listed for a row are those that it is bound by, if in none of its texts root markers
and element markers overlap. -/
theorem listedKeys_of_apart {s : Sheet} {row : Nat} (h : ∀ t ∈ s.rowTexts row, MarkersApart t) :
    s.listedKeys row = Binding.keysOf (s.rowTexts row) := by
  rw [listedKeys_eq, Binding.keysOf]
  generalize s.rowTexts row = texts at h ⊢
  induction texts with
  | nil => rfl
  | cons t rest ih =>
    obtain ⟨ht, hrest⟩ := List.forall_mem_cons.1 h
    rw [List.flatMap_cons, List.flatMap_cons, ih hrest,
      (forall_listedMarkers_eq_iff t).2 ht .element, ← map_marker_seenMarkers, List.map_map]
    rfl

end Sheet

/-- The survey lists for a text what filling finds in it exactly if its root markers and its
element markers do not overlap; a row of such texts is bound by the keys listed for it. -/
theorem listing_agrees_iff_apart (t : String) (s : Sheet) (row : Nat) :
    ((∀ scope, listedMarkers scope t = seenMarkers scope t) ↔ MarkersApart t) ∧
      ((∀ u ∈ s.rowTexts row, MarkersApart u) → s.binding row = .ofKeys (s.listedKeys row)) := by
  constructor
  · exact forall_listedMarkers_eq_iff t
  · intro h
    rw [Sheet.listedKeys_of_apart h]
    rfl

def labelled (t : String) : Sheet := (Sheet.named "S").setValue ⟨1, 1⟩ (.text t)

theorem labelled_listing_agrees :
    (∀ scope, listedMarkers scope "{{ t }}[[a.b]][[a]" = seenMarkers scope "{{ t }}[[a.b]][[a]") ∧
      (labelled "{{ t }}[[a.b]][[a]").binding 1 =
        .ofKeys ((labelled "{{ t }}[[a.b]][[a]").listedKeys 1) :=
  have h := listing_agrees_iff_apart "{{ t }}[[a.b]][[a]" (labelled "{{ t }}[[a.b]][[a]") 1
  ⟨h.1.2 (by decide +kernel), h.2 (by decide +kernel)⟩

/-- An element marker inside a root marker is not listed, but the row repeats over its key. -/
theorem enclosed_listing_differs :
    ¬ MarkersApart "{{[[a]]}}" ∧
      listedMarkers .element "{{[[a]]}}" ≠ seenMarkers .element "{{[[a]]}}" ∧
      (labelled "{{[[a]]}}").listedKeys 1 = [] ∧ (labelled "{{[[a]]}}").binding 1 = .bound "a" := by
  decide +kernel

end SheetTemplate
