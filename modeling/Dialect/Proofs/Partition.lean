import Dialect.Proofs.Nesting

/-!
# Pieces and gaps

The pieces of a list and the gaps around them make up the whole list.  A gap holds space
and outermost commas and nothing else, every outermost comma stands in a gap, and there is
one in each gap between two pieces.  There is one list of pieces only that a text can be
parted into like this, so this is a description of the pieces too.

All roles are those of the whole list, read from its front.  A piece that is read on its
own has no outermost comma either, because behind an outermost comma the reading is back at
its start, and space does not take it from there.
-/

namespace Dialect

open Reading

/-- Characters with the roles that a reading has given them. -/
abbrev Marked := List (Char × Role)

namespace Marked

def text (ms : Marked) : Text := ms.map Prod.fst

/-- Only space and outermost commas. -/
def IsGap (ms : Marked) : Prop := ∀ m ∈ ms, isSpace m.1 = true ∨ m.2 = .comma 0

def HasComma (ms : Marked) : Prop := ∃ m ∈ ms, m.2 = .comma 0

/-- Something between two gaps that no comma parts. -/
structure IsPiece (ms : Marked) : Prop where
  ne_nil : ms.text ≠ []
  trimmed : Trimmed ms.text
  no_comma : ¬ ms.HasComma

/-- What a marked text is cut into at its outermost commas. -/
def cut (ms : Marked) : List Text :=
  ((ms.splitOnP fun m => m.2 = .comma 0).map fun piece => trim (text piece)).filter
    (! ·.isEmpty)

section Cuts

variable {g x y ms : Marked}

theorem cut_roles (s : Text) : cut (start.roles s) = outermostPieces s := rfl

theorem text_append (ms ns : Marked) : text (ms ++ ns) = ms.text ++ ns.text :=
  List.map_append

theorem text_roles (r : Reading) (s : Text) : text (r.roles s) = s := map_fst_roles r s

theorem not_hasComma_append (hx : ¬ x.HasComma) (hy : ¬ y.HasComma) : ¬ HasComma (x ++ y) := by
  rintro ⟨m, hm, he⟩
  exact (List.mem_append.mp hm).elim (fun h => hx ⟨m, h, he⟩) fun h => hy ⟨m, h, he⟩

theorem isGap_append (hx : x.IsGap) (hy : y.IsGap) : IsGap (x ++ y) := fun m hm =>
  (List.mem_append.mp hm).elim (hx m) (hy m)

theorem isGap_roles_of_spaces {s : Text} (h : ∀ c ∈ s, isSpace c = true) (r : Reading) :
    IsGap (r.roles s) := by
  intro m hm
  refine Or.inl (h m.1 ?_)
  rw [← map_fst_roles r s]
  exact List.mem_map_of_mem hm

theorem IsGap.spaces (hg : g.IsGap) (hc : ¬ g.HasComma) : ∀ c ∈ g.text, isSpace c = true := by
  intro c h
  obtain ⟨m, hm, rfl⟩ := List.mem_map.mp h
  exact (hg m hm).resolve_right fun he => hc ⟨m, hm, he⟩

theorem HasComma.exists_first (h : g.HasComma) :
    ∃ y m z, g = y ++ m :: z ∧ m.2 = .comma 0 ∧ ¬ HasComma y := by
  induction g with
  | nil => simp [HasComma] at h
  | cons m g ih =>
    by_cases hm : m.2 = .comma 0
    · exact ⟨[], m, g, rfl, hm, by simp [HasComma]⟩
    · have hg : HasComma g := by
        obtain ⟨n, hn, he⟩ := h
        rcases List.mem_cons.mp hn with rfl | hn
        · exact absurd he hm
        · exact ⟨n, hn, he⟩
      obtain ⟨y, n, z, rfl, hn, hy⟩ := ih hg
      refine ⟨m :: y, n, z, rfl, hn, ?_⟩
      rintro ⟨k, hk, he⟩
      rcases List.mem_cons.mp hk with rfl | hk
      · exact hm he
      · exact hy ⟨k, hk, he⟩

theorem cut_nil : cut [] = [] := by
  simp only [cut, List.splitOnP_nil]
  rfl

theorem cut_append_cons {m : Char × Role} (hm : m.2 = .comma 0) (x ms : Marked) :
    cut (x ++ m :: ms) = cut x ++ cut ms := by
  rw [cut, List.splitOnP_append_cons x ms (decide_eq_true hm), List.map_append,
    List.filter_append]
  rfl

theorem cut_of_not_hasComma (h : ¬ x.HasComma) :
    cut x = [trim x.text].filter (! ·.isEmpty) := by
  rw [cut, List.splitOnP_eq_singleton fun m hm => decide_eq_false fun he => h ⟨m, hm, he⟩]
  rfl

/-- Space in front of the first piece is trimmed. -/
theorem cut_cons_space {m : Char × Role} (hm : isSpace m.1 = true) (hc : m.2 ≠ .comma 0)
    (ms : Marked) : cut (m :: ms) = cut ms := by
  obtain ⟨first, others, hs⟩ := List.exists_cons_of_ne_nil
    (List.splitOnP_ne_nil (fun m : Char × Role => decide (m.2 = .comma 0)) ms)
  have trimmed : trim (text (m :: first)) = trim (text first) :=
    congrArg trimEnd ((trimStart_cons m.1 (text first)).trans (if_pos hm))
  rw [cut, cut, List.splitOnP_cons_eq_if_modifyHead, if_neg (by simpa using hc), hs,
    List.modifyHead_cons, List.map_cons, List.map_cons, trimmed]

theorem cut_gap_append (hg : g.IsGap) (ms : Marked) : cut (g ++ ms) = cut ms := by
  induction g with
  | nil => rfl
  | cons m g ih =>
    have rest := ih fun n hn => hg n (List.mem_cons_of_mem m hn)
    by_cases hc : m.2 = .comma 0
    · have split := cut_append_cons hc [] (g ++ ms)
      rwa [List.nil_append, cut_nil, List.nil_append, rest] at split
    · have space := (hg m List.mem_cons_self).resolve_right hc
      rw [List.cons_append, cut_cons_space space hc, rest]

theorem cut_gap (hg : g.IsGap) : cut g = [] := by
  have none := cut_gap_append hg []
  rwa [List.append_nil, cut_nil] at none

/-- Space behind a piece is trimmed. -/
theorem cut_piece_append (hx : x.IsPiece) (hy : y.IsGap) (hc : ¬ y.HasComma) :
    cut (x ++ y) = [x.text] := by
  have trimmed : trim (text (x ++ y)) = x.text := by
    rw [text_append]
    simpa using trim_append (a := []) (by simp) (hy.spaces hc) hx.trimmed
  rw [cut_of_not_hasComma (not_hasComma_append hx.no_comma hc), trimmed,
    List.filter_cons_of_pos (by simpa using hx.ne_nil), List.filter_nil]

/-- A piece ends at the first comma of the gap behind it, or with the text. -/
theorem cut_piece_gap (hx : x.IsPiece) (hg : g.IsGap) (h : g.HasComma ∨ ms = []) :
    cut (x ++ (g ++ ms)) = x.text :: cut (g ++ ms) := by
  by_cases hc : g.HasComma
  · obtain ⟨y, n, z, hyz, hn, hy⟩ := hc.exists_first
    subst hyz
    have hgap : IsGap y := fun k hk => hg k (List.mem_append_left _ hk)
    have hrest : IsGap z := fun k hk => hg k (by simp [hk])
    rw [cut_gap_append hg, List.append_assoc, List.cons_append, ← List.append_assoc,
      cut_append_cons hn, cut_piece_append hx hgap hy, cut_gap_append hrest]
    rfl
  · obtain rfl := h.resolve_left hc
    rw [List.append_nil, cut_piece_append hx hg hc, cut_gap hg]

end Cuts
end Marked

open Marked

/-- Pieces, each with the gap in front of it, and the gap at the end. -/
structure Partition where
  parts : List (Marked × Marked)
  last : Marked

namespace Partition

def whole (p : Partition) : Marked := p.parts.flatMap (fun part => part.1 ++ part.2) ++ p.last

def gaps (p : Partition) : List Marked := p.parts.map Prod.fst ++ [p.last]

/-- The gaps between two pieces. -/
def innerGaps (p : Partition) : List Marked := (p.parts.map Prod.fst).drop 1

def pieces (p : Partition) : List Marked := p.parts.map Prod.snd

def texts (p : Partition) : List Text := p.pieces.map Marked.text

/-- The pieces and the gaps make up a text with the roles of its characters. -/
structure Of (p : Partition) (s : Text) : Prop where
  whole : p.whole = start.roles s
  gap : ∀ g ∈ p.gaps, g.IsGap
  piece : ∀ x ∈ p.pieces, x.IsPiece
  comma : ∀ g ∈ p.innerGaps, g.HasComma

section Parts

variable {p : Partition} {s t : Text}

/-- A longer gap in front. -/
def behind (g : Marked) (p : Partition) : Partition :=
  match p.parts with
  | [] => ⟨[], g ++ p.last⟩
  | (h, x) :: parts => ⟨(g ++ h, x) :: parts, p.last⟩

theorem whole_behind (g : Marked) (p : Partition) : (behind g p).whole = g ++ p.whole := by
  obtain ⟨_ | ⟨part, parts⟩, last⟩ := p <;> simp [behind, Partition.whole]

/-- The pieces are what the marks cut the whole into. -/
theorem cut_whole (hgap : ∀ g ∈ p.gaps, g.IsGap) (hpiece : ∀ x ∈ p.pieces, x.IsPiece)
    (hcomma : ∀ g ∈ p.innerGaps, g.HasComma) : cut p.whole = p.texts := by
  obtain ⟨parts, last⟩ := p
  induction parts with
  | nil => exact cut_gap (hgap last (by simp [gaps]))
  | cons part parts ih =>
    obtain ⟨g, x⟩ := part
    have tail := ih (fun h hh => hgap h (List.mem_cons_of_mem g hh))
      (fun y hy => hpiece y (List.mem_cons_of_mem x hy))
      (fun h hh => hcomma h (List.mem_of_mem_drop hh))
    have split : cut (x ++ (Partition.mk parts last).whole) =
        x.text :: cut (Partition.mk parts last).whole := by
      have piece := hpiece x (by simp [pieces])
      cases parts with
      | nil =>
        have gap : last.IsGap := hgap last (by simp [gaps])
        have behind := cut_piece_gap piece gap (Or.inr (Eq.refl []))
        rwa [List.append_nil] at behind
      | cons part parts =>
        have gap : part.1.IsGap := hgap part.1 (by simp [gaps])
        have comma : part.1.HasComma := hcomma part.1 (by simp [innerGaps])
        simp only [Partition.whole, List.flatMap_cons, List.append_assoc]
        exact cut_piece_gap piece gap (Or.inl comma)
    have whole : (Partition.mk ((g, x) :: parts) last).whole =
        g ++ (x ++ (Partition.mk parts last).whole) := by
      simp [Partition.whole]
    rw [whole, cut_gap_append (hgap g (by simp [gaps])), split, tail]
    rfl

theorem Of.texts_eq (h : p.Of s) : p.texts = outermostPieces s := by
  rw [← cut_roles, ← h.whole, cut_whole h.gap h.piece h.comma]

theorem pieces_behind (g : Marked) (p : Partition) : (behind g p).pieces = p.pieces := by
  obtain ⟨_ | ⟨part, parts⟩, last⟩ := p <;> rfl

theorem innerGaps_behind (g : Marked) (p : Partition) : (behind g p).innerGaps = p.innerGaps := by
  obtain ⟨_ | ⟨part, parts⟩, last⟩ := p <;> rfl

theorem isGap_of_mem_gaps_behind {g : Marked} (hg : g.IsGap) (hgap : ∀ h ∈ p.gaps, h.IsGap) :
    ∀ h ∈ (behind g p).gaps, h.IsGap := by
  obtain ⟨_ | ⟨⟨g', x⟩, parts⟩, last⟩ := p
  · intro h hh
    obtain rfl : h = g ++ last := by simpa [behind, gaps] using hh
    exact isGap_append hg (hgap last (by simp [gaps]))
  · intro h hh
    rcases List.mem_cons.mp hh with rfl | hh
    · exact isGap_append hg (hgap g' (by simp [gaps]))
    · exact hgap h (List.mem_cons_of_mem g' hh)

/-- A gap with a comma is inside as soon as there is a piece in front of it. -/
theorem hasComma_of_mem_parts_behind {g : Marked} (hg : g.HasComma)
    (hcomma : ∀ h ∈ p.innerGaps, h.HasComma) :
    ∀ h ∈ (behind g p).parts.map Prod.fst, h.HasComma := by
  obtain ⟨_ | ⟨⟨g', x⟩, parts⟩, last⟩ := p
  · simp [behind]
  · intro h hh
    rcases List.mem_cons.mp hh with rfl | hh
    · obtain ⟨m, hm, he⟩ := hg
      exact ⟨m, List.mem_append_left g' hm, he⟩
    · exact hcomma h hh

theorem Of.behind {g : Marked} (h : p.Of t) (hg : g.IsGap)
    (hs : start.roles s = g ++ start.roles t) : (behind g p).Of s where
  whole := by rw [whole_behind, h.whole, hs]
  gap := isGap_of_mem_gaps_behind hg h.gap
  piece := by rw [pieces_behind]; exact h.piece
  comma := by rw [innerGaps_behind]; exact h.comma

theorem Of.cons {g x g' : Marked} (h : p.Of t) (hg : g.IsGap) (hx : x.IsPiece) (hg' : g'.IsGap)
    (hc : g'.HasComma) (hs : start.roles s = g ++ (x ++ (g' ++ start.roles t))) :
    Of ⟨(g, x) :: (Partition.behind g' p).parts, (Partition.behind g' p).last⟩ s where
  whole := by
    have rest := whole_behind g' p
    rw [h.whole] at rest
    rw [hs, ← rest]
    simp [Partition.whole]
  gap := by
    intro k hk
    rcases List.mem_cons.mp hk with rfl | hk
    · exact hg
    · exact isGap_of_mem_gaps_behind hg' h.gap k hk
  piece := by
    intro y hy
    rcases List.mem_cons.mp hy with rfl | hy
    · exact hx
    · exact h.piece y (pieces_behind g' p ▸ hy)
  comma := hasComma_of_mem_parts_behind hc h.comma

/-- A text without outermost commas is one piece between two gaps, unless it is space. -/
theorem isGap_or_exists_piece (h : start.Avoids (.comma 0) s) :
    IsGap (start.roles s) ∨ ∃ g x g' : Marked,
      start.roles s = g ++ (x ++ g') ∧ g.IsGap ∧ x.IsPiece ∧ g'.IsGap := by
  obtain ⟨a, b, hs, trimmed, ha, hb⟩ := eq_append_trim s
  by_cases hne : trim s = []
  · exact Or.inl (isGap_roles_of_spaces (trim_eq_nil_iff.mp hne) start)
  · have roles : start.roles s = start.roles a ++
        ((start.run a).roles (trim s) ++ (start.run (a ++ trim s)).roles b) := by
      rw [← List.append_assoc, ← roles_append, run_append, ← run_append, ← roles_append, ← hs]
    refine Or.inr ⟨_, _, _, roles, isGap_roles_of_spaces ha _, ⟨?_, ?_, ?_⟩,
      isGap_roles_of_spaces hb _⟩
    · rwa [text_roles]
    · rwa [text_roles]
    · rintro ⟨m, hm, he⟩
      refine h m ?_ he
      rw [roles]
      exact List.mem_append_right _ (List.mem_append_left _ hm)

theorem exists_of (s : Text) : ∃ p : Partition, p.Of s := by
  induction s using outermost_induction with
  | piece s hs =>
    rcases isGap_or_exists_piece hs with hg | ⟨g, x, g', hw, hg, hx, hg'⟩
    · exact ⟨⟨[], start.roles s⟩, rfl, by simpa [gaps] using hg, by simp [pieces],
        by simp [innerGaps]⟩
    · refine ⟨⟨[(g, x)], g'⟩, by simp [whole, hw], ?_, by simpa [pieces] using hx,
        by simp [innerGaps]⟩
      simpa [gaps] using ⟨hg, hg'⟩
  | list s t hs hrun ih =>
    obtain ⟨p, hp⟩ := ih
    have hroles : start.roles (s ++ ',' :: t) =
        start.roles s ++ ([(',', .comma 0)] ++ start.roles t) := by
      rw [roles_append, hrun]
      rfl
    have hcomma : IsGap [(',', .comma 0)] := by simp [IsGap]
    rcases isGap_or_exists_piece hs with hg | ⟨g, x, g', hw, hg, hx, hg'⟩
    · exact ⟨_, hp.behind (isGap_append hg hcomma) (by rw [hroles, List.append_assoc])⟩
    · have comma : HasComma (g' ++ [(',', .comma 0)]) := ⟨(',', .comma 0), by simp, rfl⟩
      refine ⟨_, hp.cons hg hx (isGap_append hg' hcomma) comma ?_⟩
      rw [hroles, hw]
      simp

end Parts
end Partition

theorem outermostPieces_of_mem {s p : Text} (hne : p ≠ []) (htrim : Trimmed p)
    (hp : p ∈ outermostPieces s) : outermostPieces p = [p] := by
  obtain ⟨_, t, _, _, _, ht, rfl⟩ := exists_of_mem_outermostPieces hp
  rw [outermostPieces_of_avoids (avoids_trim ht), trim_eq_self htrim,
    List.filter_cons_of_pos (by simpa using hne), List.filter_nil]

/-- A text is parted into its pieces and the gaps around them, and into no other pieces, and
a piece on its own is one piece. -/
theorem outermostPieces_part_text (s : Text) :
    (∃ p : Partition, p.Of s ∧ p.whole.text = s ∧ p.texts = outermostPieces s) ∧
      (∀ p : Partition, p.Of s → p.texts = outermostPieces s) ∧
      ∀ t ∈ outermostPieces s, t ≠ [] ∧ Trimmed t ∧ outermostPieces t = [t] := by
  obtain ⟨p, hp⟩ := Partition.exists_of s
  have whole : p.whole.text = s := by rw [hp.whole, text_roles]
  refine ⟨⟨p, hp, whole, hp.texts_eq⟩, fun q hq => hq.texts_eq, fun t ht => ?_⟩
  have mem := ht
  rw [← hp.texts_eq] at mem
  obtain ⟨x, hx, rfl⟩ := List.mem_map.mp mem
  have piece := hp.piece x hx
  exact ⟨piece.ne_nil, piece.trimmed, outermostPieces_of_mem piece.ne_nil piece.trimmed ht⟩

/-- A closing parenthesis too many, an empty piece and a quote that nothing closes. -/
example : outermostPieces "a), ,\u2003'b ,c " = ["a)".toList, "'b ,c".toList] := by decide +kernel

end Dialect
