import Dialect.Proofs.Statement
import Dialect.Shell.Session

/-!
# Conversations without a database

Without a database a conversation is the compiler applied to each line.  What a line is
answered with depends on this line only, and a line that asks to leave ends the output.  So
the output is put together from the replies to the lines in front of the first line that
asks to leave, and every line that is added at the end leaves what is printed before it as
it is.
-/

namespace Dialect

/-- Space around a statement does not change what it is compiled to. -/
theorem compile_trim (raw : Text) : compile (trim raw) = compile raw := by
  obtain ⟨a, b, hraw, _, ha, hb⟩ := eq_append_trim raw
  have same : Statement.ofText raw = Statement.ofText (trim raw) := by
    have padded := Statement.ofText_padded ha hb (trim raw)
    rwa [← hraw] at padded
  rw [compile, compile, Compilation.ofText, Compilation.ofText, same]

namespace Transcript

theorem print_append_print (s t : Text) : print s ++ print t = print (s ++ t) := rfl

end Transcript

namespace Conversation

open Transcript

def leaves (line : Text) : Bool := leavingWords.any fun word => word.toList = trim line

/-- The lines in front of the first one that asks to leave. -/
def heard (ls : List Text) : List Text := ls.takeWhile (! leaves ·)

/-- What a line is answered with, unless it asks to leave. -/
def reply (format : Format) (line : Text) : Text :=
  if trim line = "" then []
  else if trim line = ".types" then Report.types format
  else "→ " ++ compile line ++ "\n"

section Replies

variable {format : Format} {line : Text} {ls ms : List Text}

theorem entered_of_leaves (h : leaves line = true) : Entered.ofLine line = .leave := by
  have hne : trim line ≠ "".toList := by
    intro he
    rw [leaves, he] at h
    exact absurd h (by decide)
  rw [leaves] at h
  simp only [Entered.ofLine, if_neg hne, if_pos h]

/-- One line of a conversation that goes on. -/
theorem answers_cons (h : leaves line = false) (ls : List Text) :
    answers format compileAnswer () (line :: ls) =
      print (reply format line) ++ answers format compileAnswer () ls := by
  rw [leaves] at h
  by_cases hnil : trim line = "".toList
  · simp only [answers, Entered.ofLine, reply, if_pos hnil]
    rfl
  · by_cases htypes : trim line = ".types".toList
    · simp only [answers, Entered.ofLine, reply, h, if_neg hnil, if_pos htypes]
      rfl
    · simp only [answers, Entered.ofLine, reply, h, if_neg hnil, if_neg htypes, compileAnswer,
        Bool.false_eq_true, if_false, compile_trim]
      rfl

/-- A whole conversation, line after line. -/
theorem answers_eq (format : Format) (ls : List Text) :
    answers format compileAnswer () ls = print ((heard ls).flatMap (reply format)) := by
  induction ls with
  | nil => rfl
  | cons line ls ih =>
    by_cases h : leaves line = true
    · have nothing : heard (line :: ls) = [] := by simp [heard, h]
      rw [nothing]
      simp only [answers, entered_of_leaves h]
      rfl
    · have more : heard (line :: ls) = line :: heard ls := by simp [heard, h]
      rw [answers_cons (by simpa using h), ih, more, List.flatMap_cons, print_append_print]

theorem compiling_eq (format : Format) (ls : List Text) :
    compiling format ls = print (banner false ++ (heard ls).flatMap (reply format)) := by
  rw [compiling, answers_eq, print_append_print]

theorem heard_append_leave {word : Text} (h : leaves word = true) (ls ms : List Text) :
    heard (ls ++ word :: ms) = heard ls :=
  takeWhile_append_cons (by simp [h]) ls ms

theorem heard_append (h : ∀ l ∈ ls, leaves l = false) (ms : List Text) :
    heard (ls ++ ms) = ls ++ heard ms :=
  List.takeWhile_append_of_pos fun l hl => by simp [h l hl]

theorem heard_prefix_append (ls ms : List Text) : heard ls <+: heard (ls ++ ms) := by
  rw [heard, heard, List.takeWhile_append]
  split
  · exact (List.takeWhile_prefix _).trans (List.prefix_append ls _)
  · exact List.prefix_refl _

theorem stdout_compiling_prefix (format : Format) (ls ms : List Text) :
    (compiling format ls).stdout <+: (compiling format (ls ++ ms)).stdout := by
  obtain ⟨more, h⟩ := heard_prefix_append ls ms
  rw [compiling_eq, compiling_eq, stdout_print, stdout_print, ← h, List.flatMap_append,
    ← List.append_assoc]
  exact List.prefix_append _ _

/-- The lines of a text in which each line ends with a line feed. -/
theorem lines_report (h : ∀ l ∈ ls, '\n' ∉ l) : lines (Report.lines ls) = ls := by
  have pieces : (Report.lines ls).splitOn '\n' = ls ++ [[]] := by
    induction ls with
    | nil => rfl
    | cons l ls ih =>
      have first : '\n' ∉ l := h l List.mem_cons_self
      have split : Report.lines (l :: ls) = l ++ '\n' :: Report.lines ls := by
        simp [Report.lines, Report.line]
      rw [split, List.splitOn_append_cons_self_of_not_mem first,
        ih fun m hm => h m (List.mem_cons_of_mem l hm)]
      rfl
  rw [lines, pieces]
  simp

/-- Behind lines that do not ask to leave, a further one adds its own reply. -/
theorem stdout_compiling_append (format : Format)
    (h : ∀ l ∈ ls ++ [line], leaves l = false) (ms : List Text) :
    (compiling format (ls ++ line :: ms)).stdout =
      (compiling format ls).stdout ++ reply format line ++ (heard ms).flatMap (reply format) := by
  have front : heard ls = ls := by
    have all := heard_append (fun l hl => h l (List.mem_append_left _ hl)) []
    rwa [List.append_nil, show heard [] = [] from rfl, List.append_nil] at all
  have whole : heard (ls ++ line :: ms) = ls ++ line :: heard ms := by
    have all := heard_append h ms
    rwa [List.append_assoc, List.append_assoc] at all
  rw [compiling_eq, compiling_eq, whole, front, List.flatMap_append, List.flatMap_cons]
  simp only [stdout_print, List.append_assoc]

end Replies

/-- Without a database the conversation is the compiler mapped over its lines: each line in
front of the first one that asks to leave gets its reply, the exit code is that of a success,
lines behind a line that asks to leave do nothing, and further lines at the end take nothing
back. -/
theorem conversation_without_database (executor : Executor) (world : Surroundings)
    {settings : Settings} (h : settings.databaseUrl = none) (ls : List Text) :
    Session.ofCommand executor world settings .repl =
        compiling settings.format (lines world.stdin) ∧
      ((∀ l ∈ ls, '\n' ∉ l) → lines (Report.lines ls) = ls) ∧
      compiling settings.format ls =
        print (banner false ++ (heard ls).flatMap (reply settings.format)) ∧
      (∀ word ms, leaves word = true →
        compiling settings.format (ls ++ word :: ms) = compiling settings.format ls) ∧
      (∀ line ms, (∀ l ∈ ls ++ [line], leaves l = false) →
        (compiling settings.format (ls ++ line :: ms)).stdout =
          (compiling settings.format ls).stdout ++ reply settings.format line ++
            (heard ms).flatMap (reply settings.format)) ∧
      ∀ ms, (compiling settings.format ls).stdout <+:
        (compiling settings.format (ls ++ ms)).stdout := by
  refine ⟨?_, lines_report, compiling_eq _ ls, fun word ms hword => ?_, fun line ms hstay => ?_,
    stdout_compiling_prefix _ ls⟩
  · rw [Session.ofCommand, Session.conversation, h]
    rfl
  · rw [compiling_eq, compiling_eq, heard_append_leave hword]
  · exact stdout_compiling_append _ hstay ms

/-- A text of five lines, of which the fourth asks to leave. -/
def farewell : Surroundings where
  stdin := " .types\n\n\tselect now() \n quit\nselect 1"
  files := ⟨[]⟩
  userDirectory := none
  database := none

theorem conversation_without_database_farewell :
    Settings.default.databaseUrl = none ∧
      Session.ofCommand .scratch farewell Settings.default .repl =
        print (banner false ++ (Report.types .text ++ "→ select datetime('now')\n".toList)) := by
  have offline : Settings.default.databaseUrl = none := rfl
  have law := conversation_without_database .scratch farewell offline (lines farewell.stdin)
  have before : heard (lines farewell.stdin) =
      [" .types".toList, [], "\tselect now() ".toList] := by decide +kernel
  have types : reply .text " .types" = Report.types .text := if_neg (by decide)
  have statement : reply .text "\tselect now() " = "→ select datetime('now')\n".toList := by
    decide +kernel
  have replies : (heard (lines farewell.stdin)).flatMap (reply .text) =
      Report.types .text ++ "→ select datetime('now')\n".toList := by
    rw [before, List.flatMap_cons, List.flatMap_cons, List.flatMap_cons, types, statement]
    rfl
  refine ⟨offline, law.1.trans (law.2.2.1.trans ?_)⟩
  exact congrArg (fun said => print (banner false ++ said)) replies

end Conversation
end Dialect
