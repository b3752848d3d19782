import Dialect.Proofs.Table.Source

/-!
# Column lists put together

A comma between two texts separates them as column lists exactly when the reading of the
first one is back at its start, outside quotes and with no group open.  Then each of the
two is read as if it stood alone, whatever the second one holds.  In any other place the
comma belongs to the piece that is open there, so one entry is missing.
-/

namespace Dialect
namespace ColumnList

open Reading

variable {a : Text}

/-- A comma that is not outermost, and a letter behind it. -/
theorem avoids_comma_letter {r : Reading} (h : r ≠ start) :
    r.Avoids (.comma 0) [',', 'x'] := by
  rw [avoids_cons, avoids_cons]
  refine ⟨fun hc => h (eq_of_role_comma hc).1, fun hx => ?_, avoids_nil⟩
  exact absurd (eq_of_role_comma hx).2 (by decide)

theorem run_of_trim_eq_nil (h : trim a = []) : start.run a = start :=
  (roles_of_plain fun c hc => isPlain_of_isSpace (trim_eq_nil_iff.mp h c hc)).2

/-- Where a group or a quoted run is open, the comma and the letter go to the last piece. -/
theorem length_outermostPieces_of_run_ne (h : start.run a ≠ start) :
    (outermostPieces (a ++ [',', 'x'])).length = (outermostPieces a).length := by
  induction a using outermost_induction with
  | piece a ha =>
    have whole : start.Avoids (.comma 0) (a ++ [',', 'x']) :=
      avoids_append.mpr ⟨ha, avoids_comma_letter h⟩
    have first : trim a ≠ [] := fun he => h (run_of_trim_eq_nil he)
    have joined : trim (a ++ [',', 'x']) ≠ [] := by
      intro he
      have letter := trim_eq_nil_iff.mp he 'x' (by simp)
      exact absurd letter (by decide)
    rw [outermostPieces_of_avoids whole, outermostPieces_of_avoids ha,
      List.filter_cons_of_pos (by simpa using joined),
      List.filter_cons_of_pos (by simpa using first)]
    rfl
  | list s t hs hrun ih =>
    have behind : start.run (s ++ ',' :: t) = start.run t := by
      rw [run_append, hrun]
      rfl
    rw [behind] at h
    rw [List.append_assoc, List.cons_append, outermostPieces_append hrun,
      outermostPieces_append hrun, List.length_append, List.length_append, ih h]

theorem run_of_entries_append (h : ∀ b, entries (a ++ ',' :: b) = entries a ++ entries b) :
    start.run a = start := by
  refine Classical.byContradiction fun hrun => ?_
  have lengths := congrArg List.length (h ['x'])
  have one : (entries ['x']).length = 1 := by decide
  rw [List.length_append, one, entries, entries, List.length_map, List.length_map,
    length_outermostPieces_of_run_ne hrun] at lengths
  omega

/-- Behind a text whose reading ends at the start, a comma and any other text add their own
entries and columns, and change none.  Only behind such a text is this so for every other
text. -/
theorem entries_append_iff (a : Text) :
    (start.run a = start ↔ ∀ b, entries (a ++ ',' :: b) = entries a ++ entries b) ∧
      (start.run a = start → ∀ b, columns (a ++ ',' :: b) = columns a ++ columns b) :=
  ⟨⟨entries_append, run_of_entries_append⟩, columns_append⟩

/-- Two parentheses too many and a comma in quotes, and then a text that closes nothing. -/
theorem entries_append_unbalanced :
    start.run "a int)), \x27b,\x27 unique, key ()" = start ∧
      entries ("a int)), \x27b,\x27 unique, key ()" ++ ',' :: "c ((int, [\x27") =
        entries "a int)), \x27b,\x27 unique, key ()" ++ entries "c ((int, [\x27" ∧
      columns ("a int)), \x27b,\x27 unique, key ()" ++ ',' :: "c ((int, [\x27") =
        columns "a int)), \x27b,\x27 unique, key ()" ++ columns "c ((int, [\x27" := by
  have run : start.run "a int)), \x27b,\x27 unique, key ()" = start := by decide +kernel
  have law := entries_append_iff "a int)), \x27b,\x27 unique, key ()"
  exact ⟨run, law.1.mp run _, law.2 run _⟩

end ColumnList
end Dialect
