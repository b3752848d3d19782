import Dialect.Compilation
import Dialect.Proofs.Spacing
import Dialect.Proofs.Table.Source

/-!
# Table declarations with other spacing

Two respaced texts are read as the same table.  Each reader of a declaration leaves
respaced rests, the group that holds the column list closes at the same parenthesis in
both, and the list is cut at the same commas.
-/

namespace Dialect

open Reading

/-- A piece is a column list with one entry, unless it is empty. -/
theorem ColumnList.columns_piece {s : Text} (hs : start.Avoids (.comma 0) s) :
    columns s = if trim s = [] then [] else (Entry.ofPiece (trim s)).column?.toList := by
  rw [columns, entries, outermostPieces_of_avoids hs]
  split
  · next he => rw [he]; rfl
  · next he =>
    rw [List.filter_cons_of_pos (by simpa using he), List.filter_nil, List.map_singleton]
    cases h : (Entry.ofPiece (trim s)).column? <;> simp [h]

namespace Respaced

/-! ## Headings -/

section Headings

variable {s t : Text}

theorem afterCreateTable? (h : Respaced none s t) :
    Option.Rel (Respaced none) (Dialect.afterCreateTable? s) (Dialect.afterCreateTable? t) := by
  refine rel_bind h.skipBlanks.afterKeyword? fun s t h => ?_
  exact rel_bind h.afterBlanks? fun s t h => h.afterKeyword?

theorem afterIfNotExists? (h : Respaced none s t) :
    Option.Rel (Respaced none) (Outline.afterIfNotExists? s) (Outline.afterIfNotExists? t) := by
  refine rel_bind h.afterKeyword? fun s t h => rel_bind h.afterBlanks? fun s t h => ?_
  refine rel_bind h.afterKeyword? fun s t h => rel_bind h.afterBlanks? fun s t h => ?_
  exact rel_bind h.afterKeyword? fun s t h => h.afterBlanks?

theorem header? (h : Respaced none s t) :
    Option.Rel (fun x y => x.1 = y.1 ∧ Cut x.2 y.2) (Outline.header? s) (Outline.header? t) := by
  refine rel_bind h.afterCreateTable? fun s t h => rel_bind h.afterBlanks? fun s t h => ?_
  rcases cases_of_rel h.afterIfNotExists? with ⟨hs, ht⟩ | ⟨s', t', hs, ht, h'⟩
  · rw [hs, ht]
    exact rel_map h.leadingName? fun x y cut => ⟨rfl, cut⟩
  · rw [hs, ht]
    exact rel_map h'.leadingName? fun x y cut => ⟨rfl, cut⟩

theorem kind_eq (h : Respaced none s t) : Kind.ofText s = Kind.ofText t := by
  have create := isSome_of_rel h.afterCreateTable?
  have insert : (Dialect.afterKeyword? "INSERT" (Dialect.skipBlanks s)).isSome =
      (Dialect.afterKeyword? "INSERT" (Dialect.skipBlanks t)).isSome :=
    isSome_of_rel h.skipBlanks.afterKeyword?
  rw [Kind.ofText, Kind.ofText, create, insert]

theorem outline? (h : Respaced none s t) :
    Option.Rel
      (fun x y => x.name = y.name ∧ x.ifNotExists = y.ifNotExists ∧ Respaced none x.body y.body)
      (Outline.ofText? s) (Outline.ofText? t) := by
  refine rel_bind h.header? fun (flag, name, s) (flag', name', t) ⟨hf, hn, h⟩ => ?_
  exact rel_bind h.trimStart.group? fun x y hg => .some ⟨hn, hf, hg.1⟩

end Headings

/-! ## Columns -/

section Columns

variable {s t : Text}

theorem constrainsTable_eq (h : Respaced none s t) :
    Entry.constrainsTable s = Entry.constrainsTable t := by
  obtain ⟨first, rest⟩ := h.leadingWord_eq
  have next := rest.trimStart.leadingWord_eq.1
  have group := rest.trimStart.head?_eq_iff (c := '(') (by decide)
  simp only [Entry.constrainsTable, first, next, group]

theorem afterArguments (h : Respaced none s t) :
    Respaced none (Column.afterArguments s) (Column.afterArguments t) := by
  unfold Column.afterArguments
  rcases cases_of_rel h.trimStart.group? with ⟨hs, ht⟩ | ⟨_, _, hs, ht, _, rest⟩
  · rw [hs, ht]
    exact h
  · rw [hs, ht]
    exact rest

theorem type? (h : Respaced none s t) : Option.Rel Cut (Column.type? s) (Column.type? t) := by
  obtain ⟨word, rest⟩ := h.leadingWord_eq
  simp only [Column.type?, word]
  split
  · exact .none
  · exact .some ⟨rfl, rest.afterArguments⟩

theorem column?_eq (h : Respaced none s t) : Column.ofText? s = Column.ofText? t := by
  rcases cases_of_rel h.leadingName? with ⟨hs, ht⟩ | ⟨⟨name, s'⟩, ⟨_, t'⟩, hs, ht, rfl, h'⟩
  · rw [Column.ofText?, Column.ofText?, hs, ht]
  · have behind := h'.skipBlanks
    have type : Cut ((Column.type? (Dialect.skipBlanks s')).getD ([], Dialect.skipBlanks s'))
        ((Column.type? (Dialect.skipBlanks t')).getD ([], Dialect.skipBlanks t')) := by
      rcases cases_of_rel behind.type? with ⟨hs, ht⟩ | ⟨_, _, hs, ht, cut⟩
      · rw [hs, ht]
        exact ⟨rfl, behind⟩
      · rw [hs, ht]
        exact cut
    have constraints := type.2.words_eq
    simp only [Column.ofText?, hs, ht, Option.bind_eq_bind, Option.bind_some, type.1,
      Constraint.collect, constraints]

theorem entry_eq (h : Respaced none s t) :
    (Entry.ofPiece s).column? = (Entry.ofPiece t).column? := by
  rw [Entry.ofPiece, Entry.ofPiece, h.constrainsTable_eq, h.column?_eq]
  cases Column.ofText? t <;> split <;> rfl

theorem columns_eq_of_avoids (hs : start.Avoids (.comma 0) s) (h : Respaced none s t) :
    ColumnList.columns s = ColumnList.columns t := by
  have ht : start.Avoids (.comma 0) t := ((reading_eq (r := start) h).2 _ (by simp)).mp hs
  have empty : (Dialect.trim s = []) = (Dialect.trim t = []) := propext h.trim.eq_nil_iff
  rw [ColumnList.columns_piece hs, ColumnList.columns_piece ht, h.trim.entry_eq]
  simp only [empty]

theorem columns_eq (h : Respaced none s t) : ColumnList.columns s = ColumnList.columns t := by
  induction s using outermost_induction generalizing t with
  | piece s hs => exact columns_eq_of_avoids hs h
  | list s u hs hrun ih =>
    obtain ⟨v, w, rfl, hv, hw⟩ := h.exists_append_cons (by decide)
    have hrun' : start.run v = start := (reading_eq (r := start) hv).1 ▸ hrun
    rw [foldl_nextQuote_of_run hrun] at hw
    rw [ColumnList.columns_append hrun, ColumnList.columns_append hrun',
      columns_eq_of_avoids hs hv, ih hw]

end Columns

/-! ## Tables -/

section Tables

variable {s t : Text}

theorem table?_eq (h : Respaced none s t) : Table.ofText? s = Table.ofText? t := by
  rcases cases_of_rel h.outline? with ⟨hs, ht⟩ | ⟨x, y, hs, ht, name, flag, body⟩
  · rw [Table.ofText?, Table.ofText?, hs, ht]
  · simp only [Table.ofText?, hs, ht, Option.bind_eq_bind, Option.bind_some, name, flag,
      body.columns_eq]

/-- What is kept or passed on keeps its spacing, and clock calls may stand in it. -/
theorem adapt_eq (h : Respaced none s t) :
    (Statement.adapt ⟨s, .ofText s⟩).2 = (Statement.adapt ⟨t, .ofText t⟩).2 ∧
      (Kind.ofText s = .createTable → (Statement.adapt ⟨s, .ofText s⟩).2 = .adapted →
        (Statement.adapt ⟨s, .ofText s⟩).1 = (Statement.adapt ⟨t, .ofText t⟩).1) := by
  unfold Statement.adapt
  simp only [h.kind_eq, h.table?_eq]
  cases Kind.ofText t with
  | createTable => cases Table.ofText? t <;> simp
  | insert => simp
  | other => simp

end Tables
end Respaced
end Dialect
