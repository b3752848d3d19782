import Dialect.Proofs.Comment.Splice
import Dialect.Proofs.Name
import Dialect.Table.Basic

/-!
# What a table keeps of its source

A table that is read off a text has its names from there, in the order in which they
stand.  Everything else that it is rendered with consists of words, blanks, commas and
parentheses, so the rendered table is a splice of the text.
-/

namespace Dialect

open Reading

/-! ## Columns -/

theorem ColumnList.entries_append {s : Text} (h : start.run s = start) (t : Text) :
    entries (s ++ ',' :: t) = entries s ++ entries t := by
  rw [entries, outermostPieces_append h, List.map_append]
  rfl

theorem ColumnList.columns_append {s : Text} (h : start.run s = start) (t : Text) :
    columns (s ++ ',' :: t) = columns s ++ columns t := by
  rw [columns, entries_append h, List.filterMap_append]
  rfl

theorem Entry.eq_of_column?_ofPiece {piece : Text} {col : Column}
    (h : (ofPiece piece).column? = some col) :
    constrainsTable piece = false ∧ Column.ofText? piece = some col := by
  unfold ofPiece at h
  split at h
  · contradiction
  · next hc =>
    refine ⟨Bool.eq_false_iff.mpr hc, ?_⟩
    split at h
    · next hcol =>
      obtain rfl := Option.some.inj h
      exact hcol
    · contradiction

theorem ColumnList.exists_piece {body : Text} {col : Column} (h : col ∈ columns body) :
    ∃ piece ∈ outermostPieces body,
      Entry.constrainsTable piece = false ∧ Column.ofText? piece = some col := by
  obtain ⟨entry, he, hcol⟩ := List.mem_filterMap.mp h
  obtain ⟨piece, hp, rfl⟩ := List.mem_map.mp he
  exact ⟨piece, hp, Entry.eq_of_column?_ofPiece hcol⟩

theorem ColumnList.columns_of_avoids {s : Text} (h : start.Avoids (.comma 0) s) :
    columns s = [] ∨ ∃ col, columns s = [col] ∧ Column.ofText? (trim s) = some col := by
  rw [columns, entries, outermostPieces_of_avoids h]
  by_cases hs : (trim s).isEmpty = true
  · simp [hs]
  · rw [List.filter_cons_of_pos (by simpa using hs), List.filter_nil, List.map_singleton]
    cases hcol : (Entry.ofPiece (trim s)).column? with
    | none => exact Or.inl (by simp [hcol])
    | some col =>
      exact Or.inr ⟨col, by simp [hcol], (Entry.eq_of_column?_ofPiece hcol).2⟩

theorem Column.exists_of_ofText? {s : Text} {col : Column} (h : Column.ofText? s = some col) :
    ∃ rest, leadingName? s = some (col.name, rest) := by
  simp only [ofText?, Option.bind_eq_bind, Option.bind_eq_some_iff] at h
  obtain ⟨⟨name, rest⟩, hname, h⟩ := h
  obtain rfl := Option.some.inj h
  exact ⟨rest, hname⟩

namespace Column

/-- What a column is rendered with behind its name. -/
def attributes (col : Column) : Text :=
  [' '] ++ col.storageType.name ++
    (if col.isPrimaryKey then " PRIMARY KEY" else "") ++
    (if col.isNotNull then " NOT NULL" else "") ++
    (if col.isUnique then " UNIQUE" else "")

theorem render_eq (col : Column) : col.render = col.name ++ col.attributes := by
  simp only [render, attributes, List.append_assoc]

theorem attributes_ne_nil (col : Column) : col.attributes ≠ [] := by
  simp [attributes]

theorem continuesWord_attributes (col : Column) :
    col.attributes.all (fun c => c = ' ' || continuesWord c) = true := by
  unfold attributes
  cases col.storageType <;> cases col.isPrimaryKey <;> cases col.isNotNull <;>
    cases col.isUnique <;> decide

theorem isInert_attributes (col : Column) : col.attributes.all Comment.isInert = true := by
  apply List.all_eq_true.mpr
  intro c hc
  have h := List.all_eq_true.mp col.continuesWord_attributes c hc
  rw [Comment.isInert, Bool.and_eq_true, Bool.and_eq_true]
  refine ⟨⟨?_, ?_⟩, ?_⟩ <;>
  · apply decide_eq_true
    intro e
    rw [e] at h
    exact absurd h (by decide)

theorem isPlain_attributes (col : Column) : ∀ c ∈ col.attributes, isPlain c = true := by
  intro c hc
  have h := List.all_eq_true.mp col.continuesWord_attributes c hc
  rw [Bool.or_eq_true, decide_eq_true_eq] at h
  rcases h with rfl | h
  · decide
  · exact isPlain_of_continuesWord h

end Column

/-! ## Splices -/

open Comment

section Lists

variable {sep s u w : Text}

/-- A piece gives at most one column, and then the name is a slice of the piece. -/
theorem spliced_piece (hsep : sep.all isInert = true) (hs : start.Avoids (.comma 0) s)
    (h : Spliced false u w) :
    Spliced false (s ++ u)
      ((ColumnList.columns s).flatMap (fun col => sep ++ col.render) ++ w) := by
  rcases ColumnList.columns_of_avoids hs with hcol | ⟨col, hcol, hpiece⟩
  · rw [hcol]
    exact h.skips s
  · obtain ⟨rest, hname⟩ := Column.exists_of_ofText? hpiece
    obtain ⟨a, b, hs, _⟩ := eq_append_trim s
    have split : s ++ u = a ++ (col.name ++ ((rest ++ b) ++ u)) := by
      rw [hs, ← append_of_leadingName? hname]
      simp
    have out : (ColumnList.columns s).flatMap (fun col => sep ++ col.render) ++ w =
        sep ++ (col.name ++ (col.attributes ++ w)) := by
      rw [hcol, List.flatMap_singleton, Column.render_eq]
      simp
    rw [split, out]
    apply Spliced.skips a
    apply Spliced.inserts hsep
    exact Spliced.slice col.name col.attributes_ne_nil col.isInert_attributes (h.skips _)

/-- The columns of a list come out of it in order. -/
theorem spliced_columns (sep : Text) (hsep : sep.all isInert = true) (h : Spliced false u w)
    (body : Text) :
    Spliced false (body ++ u)
      ((ColumnList.columns body).flatMap (fun col => sep ++ col.render) ++ w) := by
  induction body using outermost_induction with
  | piece s hs => exact spliced_piece hsep hs h
  | list s t hs hrun ih =>
    rw [ColumnList.columns_append hrun, List.flatMap_append, List.append_assoc, List.append_assoc]
    exact spliced_piece hsep hs (Spliced.skip ih)

end Lists

theorem flatMap_eq_append_intercalate {sep : Text} {l : List Text} (h : l ≠ []) :
    l.flatMap (fun s => sep ++ s) = sep ++ List.intercalate sep l := by
  induction l with
  | nil => exact absurd rfl h
  | cons s l ih =>
    cases l with
    | nil => simp [List.intercalate_singleton]
    | cons t l =>
      rw [List.flatMap_cons, ih (by simp), List.intercalate_cons_cons]
      simp

/-! ## Tables -/

theorem suffix_of_afterCreateTable? {s rest : Text} (h : afterCreateTable? s = some rest) :
    rest <:+ s := by
  simp only [afterCreateTable?, Option.bind_eq_bind, Option.bind_eq_some_iff] at h
  obtain ⟨r₁, h₁, r₂, h₂, h₃⟩ := h
  exact (suffix_of_afterKeyword? h₃).trans ((suffix_of_afterBlanks? h₂).trans
    ((suffix_of_afterKeyword? h₁).trans (List.dropWhile_suffix _)))

namespace Outline

variable {s name rest : Text} {flag : Bool}

theorem suffix_of_afterIfNotExists? (h : afterIfNotExists? s = some rest) : rest <:+ s := by
  simp only [afterIfNotExists?, Option.bind_eq_bind, Option.bind_eq_some_iff] at h
  obtain ⟨r₁, h₁, r₂, h₂, r₃, h₃, r₄, h₄, r₅, h₅, h₆⟩ := h
  exact (suffix_of_afterBlanks? h₆).trans ((suffix_of_afterKeyword? h₅).trans
    ((suffix_of_afterBlanks? h₄).trans ((suffix_of_afterKeyword? h₃).trans
      ((suffix_of_afterBlanks? h₂).trans (suffix_of_afterKeyword? h₁)))))

theorem suffix_of_header? (h : header? s = some (flag, name, rest)) :
    name ++ rest <:+ s ∧ leadingName? name = some (name, []) := by
  simp only [header?, Option.bind_eq_bind, Option.bind_eq_some_iff] at h
  obtain ⟨r₁, h₁, r₂, h₂, h⟩ := h
  have behind : r₂ <:+ s := (suffix_of_afterBlanks? h₂).trans (suffix_of_afterCreateTable? h₁)
  have read {r : Text} (hr : r <:+ r₂) (hname : leadingName? r = some (name, rest)) :
      name ++ rest <:+ s ∧ leadingName? name = some (name, []) := by
    rw [append_of_leadingName? hname]
    exact ⟨hr.trans behind, leadingName?_eq_self_iff.mpr (isName_of_leadingName? hname)⟩
  cases hguard : afterIfNotExists? r₂ with
  | none =>
    rw [hguard] at h
    obtain ⟨_, hname, he⟩ := Option.map_eq_some_iff.mp h
    obtain ⟨rfl, rfl⟩ := Prod.mk.inj he
    exact read List.suffix_rfl hname
  | some r₃ =>
    rw [hguard] at h
    obtain ⟨_, hname, he⟩ := Option.map_eq_some_iff.mp h
    obtain ⟨rfl, rfl⟩ := Prod.mk.inj he
    exact read (suffix_of_afterIfNotExists? hguard) hname

end Outline

namespace Table

variable {s : Text} {t : Table}

/-- The name and the column list of a table stand in its source, in this order. -/
theorem exists_source (h : Table.ofText? s = some t) :
    ∃ lead spaces body tail, s = lead ++ (t.name ++ (spaces ++ '(' :: (body ++ ')' :: tail))) ∧
      leadingName? t.name = some (t.name, []) ∧ Balanced body ∧
      t.columns = ColumnList.columns body ∧ t.columns ≠ [] := by
  simp only [ofText?, Outline.ofText?, Option.bind_eq_bind, Option.bind_eq_some_iff] at h
  obtain ⟨outline, ⟨⟨flag, name, rest⟩, hheader, ⟨body, tail⟩, hgroup, ho⟩, h⟩ := h
  obtain rfl := Option.some.inj ho
  simp only [Option.ite_none_left_eq_some, Option.some.injEq, List.isEmpty_iff] at h
  obtain ⟨hne, rfl⟩ := h
  obtain ⟨⟨lead, hs⟩, hname⟩ := Outline.suffix_of_header? hheader
  obtain ⟨spaces, hrest⟩ := List.dropWhile_suffix (l := rest) isSpace
  obtain ⟨hlist, balanced⟩ := balanced_of_group? hgroup
  refine ⟨lead, spaces, body, tail, ?_, hname, balanced, rfl, hne⟩
  rw [← hlist, trimStart, hrest, hs]

theorem spliced_render (h : Table.ofText? s = some t) : Spliced false s t.render := by
  obtain ⟨lead, spaces, body, tail, hs, _, _, hcolumns, hne⟩ := exists_source h
  have list : Spliced false (spaces ++ '(' :: (body ++ ')' :: tail))
      (List.intercalate ",\n    ".toList (t.columns.map Column.render) ++ "\n)".toList) := by
    have columns := spliced_columns ",\n    " (by decide)
      (Spliced.inserts (s := ')' :: tail) (m := "\n)".toList) (by decide) .stop) body
    rw [← hcolumns, ← List.flatMap_map Column.render,
      flatMap_eq_append_intercalate (by simpa using hne), List.append_nil,
      List.append_assoc] at columns
    exact Spliced.skips spaces (Spliced.skip (columns.drops _))
  have name := Spliced.skips lead (Spliced.slice t.name (m := " (\n    ".toList) (by decide)
    (by decide) list)
  have heading : ("CREATE TABLE ".toList ++
      (if t.ifNotExists then "IF NOT EXISTS " else "").toList).all isInert = true := by
    cases t.ifNotExists <;> decide
  rw [hs]
  unfold render
  simpa only [List.append_assoc] using Spliced.inserts heading name

end Table
end Dialect
