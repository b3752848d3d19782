import Dialect.Proofs.Lexeme
import Dialect.Proofs.Name
import Dialect.Proofs.Offset.Nesting

/-!
# Parentheses on a stack

A reading counts the parentheses that are open and does not know which ones they are.  A
stack knows: it holds the offset of each open parenthesis, and a closing one pops the one
that it closes.  The two agree on every text, also where there is nothing to pop and the
count stays at zero.

What stands outside quotes is taken from the lexemes of the text, which no reading of quotes
and nesting has made.  Quoted runs and words have no part in the reading, so both sides go over
the same characters.
-/

namespace Dialect
namespace Offset

open Reading Lexeme

/-- The characters that are lexemes of their own, with their offsets, where the first lexeme
stands at `i`. -/
def singles (i : Nat) : List Lexeme → List (Nat × Char)
  | [] => []
  | single c :: ls => (i, c) :: singles (i + c.utf8Size) ls
  | quoted t :: ls | word t :: ls => singles (i + (String.ofList t).utf8ByteSize) ls

/-- What a parenthesis or a comma does to a stack of open parentheses. -/
inductive Move where
  /-- An opening parenthesis, which makes the stack this high. -/
  | push (height : Nat)
  /-- A closing parenthesis, which takes the one at this offset off the stack. -/
  | pop (opener : Nat)
  /-- A closing parenthesis that finds the stack empty. -/
  | stray
  /-- A comma, which leaves a stack of this height as it is. -/
  | comma (height : Nat)
  deriving DecidableEq, Repr

/-- The moves that characters make, from a stack of offsets on.  Other characters make none. -/
def moves : List Nat → List (Nat × Char) → List (Nat × Move)
  | _, [] => []
  | stack, (i, '(') :: cs => (i, .push (stack.length + 1)) :: moves (i :: stack) cs
  | [], (i, ')') :: cs => (i, .stray) :: moves [] cs
  | opener :: stack, (i, ')') :: cs => (i, .pop opener) :: moves stack cs
  | stack, (i, ',') :: cs => (i, .comma stack.length) :: moves stack cs
  | stack, _ :: cs => moves stack cs

/-- The moves of a text, from an empty stack on. -/
def stackMoves (s : String) : List (Nat × Move) := moves [] (singles 0 (ofText s.toList))

/-- A character is reported in keeping with its move.  A closing parenthesis has the depth that
is reported for the one that it pops, and depth zero when it pops none. -/
inductive Agrees (reports : List (Nat × Role)) : Nat × Move → Nat × Role → Prop where
  | push (i height : Nat) : Agrees reports (i, .push height) (i, .opening height)
  | pop (i : Nat) {opener depth : Nat} : (opener, .opening depth) ∈ reports →
    Agrees reports (i, .pop opener) (i, .closing depth)
  | stray (i : Nat) : Agrees reports (i, .stray) (i, .closing 0)
  | comma (i height : Nat) : Agrees reports (i, .comma height) (i, .comma height)

/-- Each parenthesis on a stack is reported with the height of the stack up to it. -/
def Recorded (reports : List (Nat × Role)) : List Nat → Prop
  | [] => True
  | opener :: stack =>
    (opener, .opening (stack.length + 1)) ∈ reports ∧ Recorded reports stack

/-! ## Reports of a reading -/

section Reports

variable {r : Reading} {i d : Nat} {c q : Char} {s : Text} {cs : List (Nat × Char)}
  {ls : List Lexeme} {p : Nat × Role}

theorem structural_opening (i d : Nat) (cs : List (Nat × Char)) :
    structural ⟨none, d⟩ ((i, '(') :: cs) =
      (i, .opening (d + 1)) :: structural ⟨none, d + 1⟩ cs := rfl

theorem structural_closing (i d : Nat) (cs : List (Nat × Char)) :
    structural ⟨none, d⟩ ((i, ')') :: cs) = (i, .closing d) :: structural ⟨none, d - 1⟩ cs := rfl

theorem structural_comma (i d : Nat) (cs : List (Nat × Char)) :
    structural ⟨none, d⟩ ((i, ',') :: cs) = (i, .comma d) :: structural ⟨none, d⟩ cs := rfl

theorem structural_plain (hc : isPlain c = true) (i d : Nat) (cs : List (Nat × Char)) :
    structural ⟨none, d⟩ ((i, c) :: cs) = structural ⟨none, d⟩ cs := by
  obtain ⟨hroles, hrun⟩ := roles_of_plain_at (s := [c]) d (by simpa using hc)
  have role : role ⟨none, d⟩ c = .plain := hroles _ (List.mem_singleton_self _)
  have step : step ⟨none, d⟩ c = ⟨none, d⟩ := hrun
  rw [structural, if_pos role, step]

theorem structural_eq_nil (h : ∀ p ∈ r.roles s, p.2 = .plain) (i : Nat) :
    structural r (offsets i s) = [] := by
  induction s generalizing r i with
  | nil => rfl
  | cons c s ih =>
    have role : r.role c = .plain := h _ List.mem_cons_self
    rw [offsets, structural, if_pos role, ih fun p hp => h p (List.mem_cons_of_mem _ hp)]

/-- A run of characters that have no role leaves the reports behind it as they are. -/
theorem structural_skip (h : ∀ p ∈ r.roles s, p.2 = .plain) (hrun : r.run s = r) (i : Nat)
    (t : Text) : structural r (offsets i (s ++ t)) =
      structural r (offsets (i + (String.ofList s).utf8ByteSize) t) := by
  rw [structural_append, structural_eq_nil h, hrun, List.nil_append]

/-- What is reported of a text is reported of the characters that are lexemes of their own. -/
theorem structural_singles (h : Lexed ls) (i d : Nat) :
    structural ⟨none, d⟩ (offsets i (spell ls)) = structural ⟨none, d⟩ (singles i ls) := by
  induction h generalizing i d with
  | nil => rfl
  | @closed q inside ls hq hn h ih =>
    obtain ⟨hroles, hrun⟩ := roles_literal (r := ⟨none, d⟩) hq hn rfl
    rw [spell_cons, singles, ← ih]
    exact structural_skip hroles hrun i (spell ls)
  | @unclosed q inside hq hn =>
    -- A run that nothing closes is the front of one that is closed.
    have closed := (roles_literal (r := ⟨none, d⟩) hq hn rfl).1
    rw [roles_append] at closed
    rw [spell_cons, spell_nil, List.append_nil]
    exact structural_eq_nil (fun p hp => closed p (List.mem_append_left _ hp)) i
  | @word w ls hne hw hs h ih =>
    obtain ⟨hroles, hrun⟩ := roles_of_plain_at d fun c hc => isPlain_of_continuesWord (hw c hc)
    rw [spell_cons, singles, ← ih]
    exact structural_skip hroles hrun i (spell ls)
  | @single c ls hq hw h ih =>
    have step : ∃ d', step ⟨none, d⟩ c = ⟨none, d'⟩ := by
      simp only [step, hq, Bool.false_eq_true, if_false]
      repeat' split
      all_goals exact ⟨_, rfl⟩
    obtain ⟨d', step⟩ := step
    rw [spell_cons, text, List.singleton_append, offsets, singles, structural, structural, step, ih]

theorem le_of_mem_structural (h : p ∈ structural r (offsets i s)) : i ≤ p.1 := by
  induction s generalizing r i with
  | nil => simp [offsets, structural] at h
  | cons c s ih =>
    rw [offsets, structural] at h
    have behind (h : p ∈ structural (r.step c) (offsets (i + c.utf8Size) s)) : i ≤ p.1 := by
      have := ih h
      omega
    split at h
    · exact behind h
    · rcases List.mem_cons.mp h with rfl | h
      · exact Nat.le_refl i
      · exact behind h

theorem pairwise_structural (r : Reading) (i : Nat) (s : Text) :
    (structural r (offsets i s)).Pairwise (·.1 < ·.1) := by
  induction s generalizing r i with
  | nil => exact List.Pairwise.nil
  | cons c s ih =>
    rw [offsets, structural]
    split
    · exact ih _ _
    · refine List.pairwise_cons.mpr ⟨fun p hp => ?_, ih _ _⟩
      have behind := le_of_mem_structural hp
      have size := c.utf8Size_pos
      show i < p.1
      omega

theorem map_snd_structural (r : Reading) (i : Nat) (s : Text) :
    (structural r (offsets i s)).map Prod.snd =
      ((r.roles s).map Prod.snd).filter (· ≠ .plain) := by
  induction s generalizing r i with
  | nil => rfl
  | cons c s ih =>
    rw [offsets, structural, roles, List.map_cons]
    by_cases hc : r.role c = .plain
    · rw [if_pos hc, ih, List.filter_cons_of_neg (by simpa using hc)]
    · rw [if_neg hc, List.map_cons, ih, List.filter_cons_of_pos (by simpa using hc)]

theorem isQuote_of_mem_singles (h : Lexed ls) (i : Nat) :
    ∀ m ∈ singles i ls, isQuote m.2 = false := by
  induction h generalizing i with
  | nil => simp [singles]
  | closed hq hn h ih => exact ih _
  | unclosed => simp [singles]
  | word hne hw hs h ih => exact ih _
  | single hq hw h ih => exact List.forall_mem_cons.mpr ⟨hq, ih _⟩

theorem le_of_mem_singles {i : Nat} : ∀ m ∈ singles i ls, i ≤ m.1 := by
  induction ls generalizing i with
  | nil => simp [singles]
  | cons l ls ih =>
    have behind {n : Nat} (m : Nat × Char) (hm : m ∈ singles (i + n) ls) : i ≤ m.1 :=
      Nat.le_trans (Nat.le_add_right i n) (ih m hm)
    cases l with
    | quoted t => exact behind
    | word t => exact behind
    | single c => exact List.forall_mem_cons.mpr ⟨Nat.le_refl i, behind⟩

end Reports

/-! ## The stack -/

section Stack

variable {reports : List (Nat × Role)} {stack : List Nat} {cs : List (Nat × Char)} {c : Char}
  {i opener : Nat}

theorem cases_of_not_quote (h : isQuote c = false) :
    c = '(' ∨ c = ')' ∨ c = ',' ∨ isPlain c = true := by
  simp only [isPlain, h, Bool.not_false, Bool.true_and, Bool.and_eq_true, decide_eq_true_eq]
  tauto

theorem moves_plain (hc : isPlain c = true) (stack : List Nat) (i : Nat) (cs : List (Nat × Char)) :
    moves stack ((i, c) :: cs) = moves stack cs := by
  simp only [isPlain, Bool.and_eq_true, decide_eq_true_eq] at hc
  rw [moves] <;> simp [hc]

/-- The reading of a text beside the stack, character by character: the count is the height of
the stack, and what is on the stack has been reported with the height that it stands at. -/
theorem agrees_moves (hcs : ∀ m ∈ cs, isQuote m.2 = false) (recorded : Recorded reports stack)
    (hr : structural ⟨none, stack.length⟩ cs ⊆ reports) :
    List.Forall₂ (Agrees reports) (moves stack cs) (structural ⟨none, stack.length⟩ cs) := by
  induction cs generalizing stack with
  | nil => exact .nil
  | cons m cs ih =>
    obtain ⟨i, c⟩ := m
    obtain ⟨hc, hrest⟩ := List.forall_mem_cons.mp hcs
    rcases cases_of_not_quote hc with rfl | rfl | rfl | hc
    · rw [structural_opening] at hr ⊢
      -- Its own report records the parenthesis that is pushed.
      obtain ⟨here, behind⟩ := List.cons_subset.mp hr
      exact .cons (.push i _) (ih hrest ⟨here, recorded⟩ behind)
    · rw [structural_closing] at hr ⊢
      have behind := (List.cons_subset.mp hr).2
      cases stack with
      | nil => exact .cons (.stray i) (ih hrest recorded behind)
      | cons opener stack => exact .cons (.pop i recorded.1) (ih hrest recorded.2 behind)
    · rw [structural_comma] at hr ⊢
      exact .cons (.comma i _) (ih hrest recorded (List.cons_subset.mp hr).2)
    · rw [structural_plain hc] at hr ⊢
      rw [moves_plain hc]
      exact ih hrest recorded hr

/-- What is popped has been on the stack or is pushed on the way. -/
theorem mem_of_pop_mem_moves (h : (i, .pop opener) ∈ moves stack cs) :
    opener ∈ stack ∨ opener ∈ cs.map Prod.fst := by
  fun_induction moves stack cs <;> grind

/-- The parenthesis at the bottom of a stack is popped by the first closing one that is
reported with depth one. -/
theorem pop_mem_moves_iff (hs : opener ∉ stack)
    (hcs : ∀ m ∈ cs, isQuote m.2 = false ∧ m.1 ≠ opener) :
    (i, .pop opener) ∈ moves (stack ++ [opener]) cs ↔
      ((structural ⟨none, stack.length + 1⟩ cs).find? (·.2 = .closing 1)).map Prod.fst = some i := by
  induction cs generalizing stack with
  | nil => simp [moves, structural]
  | cons m cs ih =>
    obtain ⟨j, c⟩ := m
    obtain ⟨⟨hc, hj⟩, hrest⟩ := List.forall_mem_cons.mp hcs
    rcases cases_of_not_quote hc with rfl | rfl | rfl | hc
    · have inner : opener ∉ j :: stack := by simp [hs, Ne.symm hj]
      rw [structural_opening, List.find?_cons_of_neg (by simp), ← List.length_cons,
        ← ih inner hrest, moves]
      simp
    · rw [structural_closing]
      cases stack with
      | nil =>
        -- The bottom is popped here, and no later parenthesis has its offset.
        have never : (i, .pop opener) ∉ moves [] cs := by
          intro h
          obtain h | h := mem_of_pop_mem_moves h
          · exact List.not_mem_nil h
          · obtain ⟨m, hm, he⟩ := List.mem_map.mp h
            exact (hrest m hm).2 he
        rw [List.find?_cons_of_pos (by simp)]
        simp [moves, never, eq_comm]
      | cons o stack =>
        rw [List.mem_cons, not_or] at hs
        rw [List.find?_cons_of_neg (by simp), List.length_cons, Nat.add_sub_cancel,
          ← ih hs.2 hrest]
        simp [moves, hs.1]
    · rw [structural_comma, List.find?_cons_of_neg (by simp), ← ih hs hrest]
      simp [moves]
    · rw [structural_plain hc, moves_plain hc, ih hs hrest]

end Stack

section Texts

variable {s : String}

theorem structuralChars_eq (s : String) :
    structuralChars s = structural start (singles 0 (ofText s.toList)) := by
  have singled := structural_singles (lexed_ofText s.toList) 0 0
  rwa [spell_ofText] at singled

theorem matchingClose?_eq_some_iff (h : s.toList.head? = some '(') (i : Nat) :
    matchingClose? s = some i ↔ (i, .pop 0) ∈ stackMoves s := by
  obtain ⟨t, ht⟩ := List.head?_eq_some_iff.mp h
  have lexed := lexed_ofText t
  have text : ofText s.toList = single '(' :: ofText t := by
    rw [ht, ofText_single rfl (by decide +kernel)]
  have reports : structuralChars s =
      (0, .opening 1) :: structural ⟨none, 1⟩ (singles 1 (ofText t)) := by
    rw [structuralChars_eq, text]
    rfl
  have moved : stackMoves s = (0, .push 1) :: moves [0] (singles 1 (ofText t)) := by
    rw [stackMoves, text, singles, moves]
    rfl
  have behind : ∀ m ∈ singles 1 (ofText t), isQuote m.2 = false ∧ m.1 ≠ 0 := fun m hm =>
    ⟨isQuote_of_mem_singles lexed 1 m hm, Nat.ne_of_gt (le_of_mem_singles m hm)⟩
  have first : (i, Move.pop 0) ≠ (0, .push 1) := by simp
  have popped : (i, .pop 0) ∈ moves ([] ++ [0]) (singles 1 (ofText t)) ↔ _ :=
    pop_mem_moves_iff List.not_mem_nil behind
  rw [matchingClose?, reports, List.find?_cons_of_neg (by simp), moved, List.mem_cons,
    or_iff_right first]
  exact popped.symm

/-- A reading reports the parentheses and commas outside quotes, in the order of their offsets,
and nothing else, and each report agrees with the move of a stack.  So a parenthesis at the
beginning of a text is closed by the one that pops it, which ends the group, and it is not
closed when nothing pops it. -/
theorem reports_agree_with_stack (s : String) :
    ((structuralChars s).map Prod.snd =
        ((start.roles s.toList).map Prod.snd).filter (· ≠ .plain) ∧
      (structuralChars s).Pairwise (·.1 < ·.1) ∧
      List.Forall₂ (Agrees (structuralChars s)) (stackMoves s) (structuralChars s)) ∧
    (s.toList.head? = some '(' →
      (∀ i, matchingClose? s = some i ↔ (i, .pop 0) ∈ stackMoves s) ∧
      (matchingClose? s = none ↔ ∀ i, (i, .pop 0) ∉ stackMoves s) ∧
      matchingClose? s =
        (group? s.toList).map fun p => (String.ofList ('(' :: p.1)).utf8ByteSize) := by
  refine ⟨⟨map_snd_structural _ _ _, pairwise_structural _ _ _, ?_⟩, fun h => ⟨?_, ?_, ?_⟩⟩
  · have outside := isQuote_of_mem_singles (lexed_ofText s.toList) 0
    have recorded : Recorded (structuralChars s) [] := trivial
    rw [structuralChars_eq] at recorded ⊢
    exact agrees_moves outside recorded (List.Subset.refl _)
  · exact matchingClose?_eq_some_iff h
  · simp only [Option.eq_none_iff_forall_ne_some, ne_eq, matchingClose?_eq_some_iff h]
  · exact matchingClose?_eq h

/-- A parenthesis in quotes, one too many and a character of two bytes. -/
theorem reports_agree_with_stack_stray :
    "(é, \x27)\x27 (b), c)), )".toList.head? = some '(' ∧
      stackMoves "(é, \x27)\x27 (b), c)), )" =
        [(0, .push 1), (3, .comma 1), (9, .push 2), (11, .pop 9), (12, .comma 1), (15, .pop 0),
          (16, .stray), (17, .comma 0), (19, .stray)] ∧
      matchingClose? "(é, \x27)\x27 (b), c)), )" = some 15 := by
  have head : "(é, \x27)\x27 (b), c)), )".toList.head? = some '(' := by decide
  have moves : stackMoves "(é, \x27)\x27 (b), c)), )" =
      [(0, .push 1), (3, .comma 1), (9, .push 2), (11, .pop 9), (12, .comma 1), (15, .pop 0),
        (16, .stray), (17, .comma 0), (19, .stray)] := by
    decide +kernel
  have law := ((reports_agree_with_stack "(é, \x27)\x27 (b), c)), )").2 head).1 15
  exact ⟨head, moves, law.mpr (moves ▸ by decide)⟩

end Texts

end Offset
end Dialect
