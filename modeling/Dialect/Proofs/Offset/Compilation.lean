import Dialect.Compilation
import Dialect.Proofs.Offset.Clock
import Dialect.Proofs.Offset.Comment
import Dialect.Proofs.Offset.Table

/-!
# The compiler at byte offsets

The compiler over strings cuts at byte offsets, and a cut that faults ends the whole
compilation with an internal fault.  No text makes it fault: each of its parts returns what
the part that cuts between characters returns, and so does the compiler.
-/

namespace Dialect
namespace Offset

def compilation (raw : String) : Except SliceFault Compilation := do
  let text := trim (← remove raw).toList
  let kind := Kind.ofText text
  match kind with
  | .createTable =>
    match ← table? (String.ofList text) with
    | some table => return { sql := table.render, kind, treatment := .adapted }
    | none => return { sql := text, kind, treatment := .kept }
  | .insert => return { sql := passInsertion text, kind, treatment := .passed }
  | .other => return { sql := (← adapt (String.ofList text)).toList, kind, treatment := .adapted }

/-- A fault of a slice as a fault of the compiler, where `words` is what the slice says. -/
def guarded {α : Type} (words : SliceFault → Text) (result : Except SliceFault α) :
    Except Fault α :=
  result.mapError fun fault => Fault.ofBreakdown (some (words fault))

def compileDetailed (words : SliceFault → Text) (raw : String) : Except Fault Compilation :=
  guarded words (compilation raw)

def compile (words : SliceFault → Text) (raw : String) : Except Fault Text :=
  (compileDetailed words raw).map Compilation.sql

theorem compilation_eq (raw : String) : compilation raw = .ok (Compilation.ofText raw.toList) := by
  rw [compilation, remove_eq, ok_bind, String.toList_ofList]
  simp only [table?_eq, adapt_eq, String.toList_ofList]
  unfold Compilation.ofText Statement.ofText Statement.adapt
  cases h : Kind.ofText (trim (Comment.remove raw.toList)) with
  | createTable => cases h' : Table.ofText? (trim (Comment.remove raw.toList)) <;> simp [h, h']
  | insert => simp [h]
  | other => simp [h]

theorem compileDetailed_eq (words : SliceFault → Text) (raw : String) :
    compileDetailed words raw = .ok (Compilation.ofText raw.toList) := by
  rw [compileDetailed, compilation_eq]
  rfl

/-- Every slice that the compiler takes is in range and between two characters, whatever
the text.  So each part returns what it returns when it cuts between characters, and the
compiler never breaks off. -/
theorem slices_never_fault (words : SliceFault → Text) (s : String) :
    remove s = .ok (String.ofList (Comment.remove s.toList)) ∧
    outline? s = .ok (Outline.ofText? s.toList) ∧
    afterArguments s = .ok (String.ofList (Column.afterArguments s.toList)) ∧
    constrainsTable s = .ok (Entry.constrainsTable s.toList) ∧
    outermostPieces s = .ok ((Dialect.outermostPieces s.toList).map String.ofList) ∧
    adapt s = .ok (String.ofList (Clock.adapt s.toList)) ∧
    (∀ quote, isQuote quote = true →
      quotedLength (String.singleton quote ++ s) quote =
        .ok (String.ofList (quote :: (Clock.quotedRun quote s.toList).1)).utf8ByteSize) ∧
    compileDetailed words s = .ok (Compilation.ofText s.toList) ∧
    compile words s = .ok (Dialect.compile s.toList) := by
  refine ⟨remove_eq s, outline?_eq s, afterArguments_eq s, constrainsTable_eq s,
    outermostPieces_eq s, adapt_eq s, fun quote hq => ?_, compileDetailed_eq words s, ?_⟩
  · have length := quotedLength_eq hq s.toList
    rwa [String.ofList_cons, String.ofList_toList] at length
  · rw [compile, compileDetailed_eq]
    rfl

theorem slices_never_fault_accent :
    isQuote '\x27' = true ∧ quotedLength (String.singleton '\x27' ++ "é") '\x27' = .ok 3 :=
  ⟨rfl, (slices_never_fault (fun _ => []) "é").2.2.2.2.2.2.1 '\x27' rfl⟩

end Offset
end Dialect
