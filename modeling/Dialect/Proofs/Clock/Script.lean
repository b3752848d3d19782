import Dialect.Proofs.Clock.Locality
import Dialect.Proofs.Lexeme
import Mathlib.Data.List.Induction

/-!
# Clock calls in scripts

A script holds statements with semicolons between them.  A semicolon outside quotes ends
every word and every call, so the statements of a script are adapted one by one.  Only a
quoted run goes on over a semicolon, and a run that a statement leaves open hides the
clock calls behind it.
-/

namespace Dialect
namespace Clock

open Reading Lexeme

/-- Every quoted run ends with the quote that it begins with. -/
def QuotesClosed (s : Text) : Prop :=
  ∀ run, .quoted run ∈ ofText s → ∃ q inside, run = q :: (inside ++ [q])

section Quotes

variable {s : Text} {ls : List Lexeme}

theorem isQuote_of_mem_foldl_nextQuote (s : Text) :
    ∀ q ∈ s.foldl nextQuote none, isQuote q = true := by
  induction s using List.reverseRecOn with
  | nil => simp
  | append_singleton s c ih =>
    rw [List.foldl_append, List.foldl_cons, List.foldl_nil]
    cases hs : s.foldl nextQuote none with
    | none =>
      cases hc : isQuote c with
      | true => simpa [nextQuote_of_isQuote hc] using hc
      | false => simp [nextQuote_of_not_quote hc]
    | some q =>
      by_cases hc : c = q
      · simp [hc, nextQuote_self]
      · simpa [nextQuote_of_ne hc] using ih q hs

/-- A reading of the characters ends outside quotes when no lexeme lacks its closing quote. -/
theorem foldl_nextQuote_spell_eq_none_iff (h : Lexed ls) :
    (spell ls).foldl nextQuote none = none ↔
      ∀ run, .quoted run ∈ ls → ∃ q inside, run = q :: (inside ++ [q]) := by
  induction h with
  | nil => simp
  | @closed q inside ls hq hn h ih =>
    have joined : spell (.quoted (q :: (inside ++ [q])) :: ls) =
        q :: (inside ++ q :: spell ls) := by
      simp [text]
    rw [joined, foldl_nextQuote_closed hq hn, ih]
    constructor
    · intro all run hrun
      rcases List.mem_cons.mp hrun with hrun | hrun
      · exact ⟨q, inside, Lexeme.quoted.inj hrun⟩
      · exact all run hrun
    · exact fun all run hrun => all run (List.mem_cons_of_mem _ hrun)
  | @unclosed q inside hq hn =>
    have hopen : (spell [.quoted (q :: inside)]).foldl nextQuote none = some q := by
      rw [spell_cons, spell_nil, List.append_nil, text, List.foldl_cons, nextQuote_of_isQuote hq,
        foldl_nextQuote_of_not_mem hn]
    refine iff_of_false (by rw [hopen]; simp) fun all => ?_
    obtain ⟨q', inside', he⟩ := all _ List.mem_cons_self
    obtain ⟨rfl, rfl⟩ := List.cons.inj he
    exact hn (by simp)
  | @word w ls hne hw hend h ih =>
    have plain : w.foldl nextQuote none = none :=
      foldl_nextQuote_of_not_quote fun c hc => isQuote_of_continuesWord (hw c hc)
    rw [spell_cons, text, List.foldl_append, plain, ih]
    simp
  | @single c ls hq hw h ih =>
    rw [spell_cons, text, List.foldl_append, List.foldl_cons, List.foldl_nil,
      nextQuote_of_not_quote hq, ih]
    simp

theorem quotesClosed_iff : QuotesClosed s ↔ s.foldl nextQuote none = none := by
  rw [QuotesClosed, ← foldl_nextQuote_spell_eq_none_iff (lexed_ofText s), spell_ofText]

end Quotes

section Semicolons

variable {a : Text}

theorem cut_semicolon (a b : Text) : Cut a (';' :: b) :=
  ⟨Or.inr (by simp; decide), by simp; decide⟩

theorem adapt_semicolon (h : QuotesClosed a) (b : Text) :
    adapt (a ++ ';' :: b) = adapt a ++ ';' :: adapt b := by
  rw [adapt_append (cut_semicolon a b), quotesClosed_iff.mp h, adaptIn,
    adapt_cons (by decide) (by decide)]

/-- An open run hides a clock call behind the semicolon. -/
theorem adapt_semicolon_ne (h : ¬ QuotesClosed a) :
    adapt (a ++ ';' :: "now()".toList) ≠ adapt a ++ ';' :: adapt "now()" := by
  rw [quotesClosed_iff] at h
  obtain ⟨q, hq⟩ := Option.ne_none_iff_exists'.mp h
  have hidden : q ∉ ';' :: "now()".toList := by
    have quote := isQuote_of_mem_foldl_nextQuote a q hq
    simp only [isQuote, Bool.or_eq_true, decide_eq_true_eq] at quote
    rcases quote with (rfl | rfl) | rfl <;> decide
  rw [adapt_append (cut_semicolon a _), hq, adaptIn, quotedRun_unclosed hidden, adapt_nil]
  intro same
  exact absurd (List.append_cancel_left same) (by decide +kernel)

/-- The statements of a script are adapted one by one.  Only the last may leave a quoted run
open. -/
theorem adapt_script {ss : List Text} (h : ∀ s ∈ ss.dropLast, QuotesClosed s) :
    adapt (List.intercalate [';'] ss) = List.intercalate [';'] (ss.map adapt) := by
  induction ss with
  | nil => exact adapt_nil
  | cons s ss ih =>
    cases ss with
    | nil => simp [List.intercalate]
    | cons t ss =>
      rw [List.dropLast_cons_cons, List.forall_mem_cons] at h
      have joined : List.intercalate [';'] (s :: t :: ss) =
          s ++ ';' :: List.intercalate [';'] (t :: ss) := by
        simp [List.intercalate_cons_cons]
      rw [joined, adapt_semicolon h.1, ih h.2]
      simp [List.intercalate_cons_cons]

/-- Neither side of a semicolon changes how the other is adapted, whatever the other side
holds, exactly when no quoted run goes on over the semicolon. -/
theorem adapt_semicolon_iff (a : Text) :
    QuotesClosed a ↔ ∀ b, adapt (a ++ ';' :: b) = adapt a ++ ';' :: adapt b := by
  refine ⟨adapt_semicolon, fun h => ?_⟩
  exact Classical.byContradiction fun hopen => adapt_semicolon_ne hopen (h _)

end Semicolons
end Clock
end Dialect
