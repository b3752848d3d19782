import Dialect.Issue
import Dialect.Proofs.Lexeme
import Dialect.Proofs.Nesting

/-!
# Apostrophes

An apostrophe opens or closes a literal, or it is hidden in a run of another quote.  A text
that is cut at all its apostrophes has a literal in every other piece as long as none of
them is hidden.  In general a piece is one of these when the number of hidden apostrophes in
front of it is even and no literal is open there, or when it is odd and one is.
-/

namespace Dialect

open Reading

/-- What a quoted run holds, if it is a closed run in apostrophes. -/
def Lexeme.literal? : Lexeme → Option Text
  | quoted ('\x27' :: run) => if run.getLast? = some '\x27' then some run.dropLast else none
  | _ => none

/-- What the closed runs in apostrophes hold, in order. -/
def closedLiterals (s : Text) : List Text := (Lexeme.ofText s).filterMap Lexeme.literal?

/-- An apostrophe, with the text in front of it and the text behind it. -/
structure Mark where
  before : Text
  after : Text
  deriving DecidableEq

namespace Mark

/-- The text up to the next apostrophe. -/
def piece (m : Mark) : Text := m.after.takeWhile (· ≠ '\x27')

/-- The quoted run that the apostrophe stands in. -/
def quote (m : Mark) : Option Char := (start.run m.before).quote

/-- Whether the apostrophe stands in a run of another quote. -/
def isHidden (m : Mark) : Bool := m.quote.any (· ≠ '\x27')

/-- Whether the apostrophe opens a literal that is closed. -/
def opensLiteral (m : Mark) : Bool := m.quote = none && '\x27' ∈ m.after

/-- Whether the apostrophe opens a literal that is closed, or closes one. -/
def endsLiteral (m : Mark) : Bool := m.opensLiteral || m.quote = some '\x27'

/-- Whether an even number of apostrophes stands in front of this one, so that the piece
behind it is one of every other piece. -/
def isEven (m : Mark) : Bool := m.before.count '\x27' % 2 = 0

/-- The apostrophes of `s`, where `before` stands in front of it. -/
def listFrom (before : Text) : Text → List Mark
  | [] => []
  | c :: s => (if c = '\x27' then [⟨before, s⟩] else []) ++ listFrom (before ++ [c]) s

/-- The apostrophes of a text, in order. -/
def list (s : Text) : List Mark := listFrom [] s

/-- How many hidden apostrophes stand in front of this one. -/
def hidden (m : Mark) : Nat := (list m.before).countP isHidden

/-! ## Places -/

section Places

variable {before s : Text} {m : Mark}

theorem mem_listFrom :
    m ∈ listFrom before s ↔ ∃ u, m.before = before ++ u ∧ s = u ++ '\x27' :: m.after := by
  induction s generalizing before with
  | nil => simp [listFrom]
  | cons c s ih =>
    rw [listFrom, List.mem_append, ih]
    constructor
    · intro h
      rcases h with h | ⟨u, hu, hs⟩
      · split at h
        · next hc =>
          obtain rfl := List.mem_singleton.mp h
          exact ⟨[], by simp, by simp [hc]⟩
        · simp at h
      · exact ⟨c :: u, by simp [hu], by simp [hs]⟩
    · intro h
      obtain ⟨u, hu, hs⟩ := h
      cases u with
      | nil =>
        obtain ⟨rfl, rfl⟩ := List.cons.inj hs
        refine Or.inl ?_
        rw [if_pos rfl, List.mem_singleton, ← List.append_nil before, ← hu]
      | cons d u =>
        obtain ⟨rfl, rfl⟩ := List.cons.inj hs
        exact Or.inr ⟨u, by simp [hu], rfl⟩

/-- Every apostrophe of a text is listed, and nothing else. -/
theorem mem_list_iff : m ∈ list s ↔ s = m.before ++ '\x27' :: m.after := by
  rw [list, mem_listFrom]
  constructor
  · intro h
    obtain ⟨u, hu, hs⟩ := h
    rw [hs, hu, List.nil_append]
  · intro h
    exact ⟨m.before, rfl, h⟩

theorem quote_eq (m : Mark) : m.quote = m.before.foldl nextQuote none := quote_run start m.before

end Places

/-! ## Every other piece -/

theorem splitOn_eq_cons (s : Text) :
    s.splitOn '\x27' = s.takeWhile (· ≠ '\x27') :: (s.splitOn '\x27').tail := by
  induction s with
  | nil => rfl
  | cons c s ih =>
    rw [List.splitOn_cons_eq_if_modifyHead, ih]
    by_cases hc : c = '\x27' <;> simp [hc]

theorem everyOther_cons {α : Type} (a : α) (l : List α) :
    everyOther (a :: l) = a :: everyOther (l.drop 1) := by
  cases l <;> rfl

/-- Behind an odd number of apostrophes the text begins with the end of a piece that is one
of every other. -/
theorem map_piece_listFrom (before s : Text) :
    ((listFrom before s).filter isEven).map piece =
      everyOther ((s.splitOn '\x27').drop (1 + before.count '\x27' % 2)) := by
  induction s generalizing before with
  | nil =>
    rw [List.splitOn_nil, Nat.add_comm, List.drop_succ_cons, List.drop_nil]
    rfl
  | cons c s ih =>
    rw [listFrom, List.filter_append, List.map_append, ih, List.splitOn_cons_eq_if_modifyHead,
      List.count_append, splitOn_eq_cons s]
    by_cases hc : c = '\x27'
    · rw [hc, if_pos rfl, if_pos (beq_self_eq_true _), List.count_singleton_self]
      rcases Nat.mod_two_eq_zero_or_one (before.count '\x27') with even | odd
      · have next : (before.count '\x27' + 1) % 2 = 1 := by omega
        have taken : isEven ⟨before, s⟩ = true := decide_eq_true even
        rw [List.filter_cons_of_pos taken, even, next]
        simp [everyOther_cons, piece]
      · have next : (before.count '\x27' + 1) % 2 = 0 := by omega
        have passed : ¬ isEven ⟨before, s⟩ = true := by
          intro h
          have even : before.count '\x27' % 2 = 0 := of_decide_eq_true h
          omega
        rw [List.filter_cons_of_neg passed, odd, next]
        simp
    · have count : [c].count '\x27' = 0 := by simp [hc]
      rw [if_neg hc, if_neg (by simpa using hc), count]
      simp [Nat.add_comm 1]

/-! ## Literals -/

section Literals

variable {before u : Text} {q : Char}

/-- What the literals hold that are opened in `s`, where `before` stands in front of it. -/
def openedIn (before s : Text) : List Text := ((listFrom before s).filter opensLiteral).map piece

theorem openedIn_cons (before s : Text) (c : Char) : openedIn before (c :: s) =
    (if c = '\x27' ∧ before.foldl nextQuote none = none ∧ '\x27' ∈ s then
      [s.takeWhile (· ≠ '\x27')] else []) ++ openedIn (before ++ [c]) s := by
  rw [openedIn, listFrom, List.filter_append, List.map_append]
  refine congrArg (· ++ _) ?_
  by_cases hc : c = '\x27'
  · have opens : opensLiteral ⟨before, s⟩ = true ↔
        before.foldl nextQuote none = none ∧ '\x27' ∈ s := by
      rw [opensLiteral, quote_eq, Bool.and_eq_true, decide_eq_true_eq, decide_eq_true_eq]
    rw [if_pos hc, List.filter_cons, List.filter_nil]
    simp only [hc, true_and, opens]
    split <;> rfl
  · simp [hc]

/-- In a quoted run no literal is opened. -/
theorem openedIn_quoted (hq : before.foldl nextQuote none = some q) (hu : q ∉ u) (t : Text) :
    openedIn before (u ++ t) = openedIn (before ++ u) t := by
  induction u generalizing before with
  | nil => rw [List.nil_append, List.append_nil]
  | cons c u ih =>
    rw [List.mem_cons, not_or] at hu
    have within : (before ++ [c]).foldl nextQuote none = some q := by
      rw [List.foldl_append, hq]
      exact nextQuote_of_ne (Ne.symm hu.1)
    rw [List.cons_append, openedIn_cons, ih within hu.2, hq]
    simp

theorem openedIn_unquoted (hu : ∀ c ∈ u, isQuote c = false) (before t : Text) :
    openedIn before (u ++ t) = openedIn (before ++ u) t := by
  induction u generalizing before with
  | nil => rw [List.nil_append, List.append_nil]
  | cons c u ih =>
    have hc : c ≠ '\x27' := by
      intro he
      have quote := hu c List.mem_cons_self
      rw [he] at quote
      exact absurd quote (by decide)
    rw [List.cons_append, openedIn_cons, ih fun d hd => hu d (List.mem_cons_of_mem c hd)]
    simp [hc]

theorem foldl_nextQuote_opening (h : before.foldl nextQuote none = none)
    (hq : isQuote q = true) : (before ++ [q]).foldl nextQuote none = some q := by
  rw [List.foldl_append, h]
  exact nextQuote_of_isQuote hq

theorem openedIn_closed (h : before.foldl nextQuote none = none) (hq : isQuote q = true)
    (hu : q ∉ u) (rest : Text) : openedIn before (q :: (u ++ q :: rest)) =
      (if q = '\x27' then [u] else []) ++ openedIn (before ++ (q :: (u ++ [q]))) rest := by
  have opened := foldl_nextQuote_opening h hq
  have within : (before ++ [q] ++ u).foldl nextQuote none = some q := by
    rw [List.foldl_append, opened, foldl_nextQuote_of_not_mem hu]
  rw [openedIn_cons, openedIn_quoted opened hu, openedIn_cons, within, h]
  by_cases ha : q = '\x27'
  · subst ha
    rw [takeWhile_ne hu]
    simp
  · simp [ha]

theorem openedIn_unclosed (h : before.foldl nextQuote none = none) (hq : isQuote q = true)
    (hu : q ∉ u) : openedIn before (q :: u) = [] := by
  have opened := foldl_nextQuote_opening h hq
  have rest := openedIn_quoted opened hu []
  rw [List.append_nil] at rest
  rw [openedIn_cons, rest, if_neg, List.nil_append]
  · rfl
  · intro hc
    exact hu (hc.1 ▸ hc.2.2)

theorem literal?_closed (q : Char) (u : Text) :
    Lexeme.literal? (.quoted (q :: (u ++ [q]))) = if q = '\x27' then some u else none := by
  by_cases ha : q = '\x27'
  · rw [ha, if_pos rfl, Lexeme.literal?, List.getLast?_concat, if_pos rfl, List.dropLast_concat]
  · rw [if_neg ha]
    unfold Lexeme.literal?
    split
    · next he => exact absurd (List.cons.inj (Lexeme.quoted.inj he)).1 ha
    · rfl

theorem literal?_unclosed (hu : q ∉ u) : Lexeme.literal? (.quoted (q :: u)) = none := by
  unfold Lexeme.literal?
  split
  · next he =>
    obtain ⟨rfl, rfl⟩ := List.cons.inj (Lexeme.quoted.inj he)
    rw [if_neg fun last => hu (List.mem_of_getLast? last)]
  · rfl

/-- Outside quoted runs, what is opened from there on are the closed literals. -/
theorem openedIn_eq (h : before.foldl nextQuote none = none) (s : Text) :
    openedIn before s = closedLiterals s := by
  rw [closedLiterals]
  fun_induction Lexeme.ofText s generalizing before with
  | case1 => rfl
  | case2 c s hq ih =>
    -- A run that is not closed goes to the end, and then nothing is opened in it either.
    by_cases hc : c ∈ s
    · obtain ⟨inside, rest, rfl, hn⟩ := List.eq_append_cons_of_mem hc
      have behind : (before ++ (c :: (inside ++ [c]))).foldl nextQuote none = none := by
        rw [List.foldl_append, h, foldl_nextQuote_closed hq hn]
        rfl
      rw [Clock.quotedRun_closed hn] at ih ⊢
      rw [openedIn_closed h hq hn, ih behind, List.filterMap_cons, literal?_closed]
      by_cases ha : c = '\x27' <;> simp [ha]
    · rw [openedIn_unclosed h hq hc, Clock.quotedRun_unclosed hc, List.filterMap_cons,
        literal?_unclosed hc, Lexeme.ofText_nil]
      rfl
  | case3 c s hq hw ih =>
    have word : ∀ d ∈ leadingWord (c :: s), isQuote d = false := fun d hd =>
      Clock.isQuote_of_continuesWord (continuesWord_of_mem_leadingWord hd)
    have behind : (before ++ leadingWord (c :: s)).foldl nextQuote none = none := by
      rw [List.foldl_append, h, foldl_nextQuote_of_not_quote word]
    have split := openedIn_unquoted word before (afterWord (c :: s))
    rw [leadingWord_append_afterWord] at split
    rw [split, ih behind]
    rfl
  | case4 c s hq hw ih =>
    have single : ∀ d ∈ [c], isQuote d = false := by simpa using hq
    have behind : (before ++ [c]).foldl nextQuote none = none := by
      rw [List.foldl_append, h, foldl_nextQuote_of_not_quote single]
    rw [← List.singleton_append, openedIn_unquoted single, ih behind]
    rfl

end Literals

/-! ## Hidden apostrophes -/

/-- How many literals are open, which is one or none. -/
def openCount (q : Option Char) : Nat := if q = some '\x27' then 1 else 0

/-- An apostrophe changes the number of open literals unless it is hidden, and nothing else
changes it. -/
theorem openCount_nextQuote (q : Option Char) (c : Char) :
    (openCount q + [c].count '\x27' + openCount (nextQuote q c)) % 2 =
      if c = '\x27' ∧ q.any (· ≠ '\x27') then 1 else 0 := by
  by_cases hc : c = '\x27'
  · subst hc
    cases q with
    | none => rfl
    | some d =>
      by_cases hd : d = '\x27'
      · subst hd
        rfl
      · rw [nextQuote_of_ne (Ne.symm hd)]
        simp [openCount, hd]
  · have same : openCount (nextQuote q c) = openCount q := by
      cases q with
      | none =>
        cases hq : isQuote c with
        | true => simp [nextQuote_of_isQuote hq, openCount, hc]
        | false => rw [nextQuote_of_not_quote hq]
      | some d =>
        by_cases hd : c = d
        · subst hd
          simp [nextQuote_self, openCount, hc]
        · rw [nextQuote_of_ne hd]
    rw [same, if_neg fun h => hc h.1, List.count_singleton, if_neg (by simpa using hc)]
    omega

/-- Over a text, the number of open literals changes as often as there are apostrophes that
are not hidden. -/
theorem count_mod_two (before s : Text) :
    (s.count '\x27' + openCount (before.foldl nextQuote none) +
      openCount ((before ++ s).foldl nextQuote none)) % 2 =
        (listFrom before s).countP isHidden % 2 := by
  induction s generalizing before with
  | nil =>
    rw [List.append_nil]
    show (0 + _ + _) % 2 = 0
    omega
  | cons c s ih =>
    have first := openCount_nextQuote (before.foldl nextQuote none) c
    have behind := ih (before ++ [c])
    have place : (before ++ [c]).foldl nextQuote none =
        nextQuote (before.foldl nextQuote none) c := by
      rw [List.foldl_append]
      rfl
    have mark : (if c = '\x27' then [(⟨before, s⟩ : Mark)] else []).countP isHidden =
        if c = '\x27' ∧ (before.foldl nextQuote none).any (· ≠ '\x27') then 1 else 0 := by
      by_cases hc : c = '\x27'
      · simp [hc, isHidden, quote_eq, List.countP_singleton]
      · simp [hc]
    have split : (c :: s).count '\x27' = [c].count '\x27' + s.count '\x27' := by
      show ([c] ++ s).count '\x27' = _
      exact List.count_append
    rw [List.append_assoc, List.singleton_append, place] at behind
    rw [listFrom, List.countP_append, mark, split, ← first]
    omega

theorem isEven_iff (m : Mark) :
    m.isEven = true ↔ (m.hidden % 2 = 0 ↔ m.quote ≠ some '\x27') := by
  have parity := count_mod_two [] m.before
  rw [List.nil_append, ← quote_eq] at parity
  have total : (m.before.count '\x27' + 0 + openCount m.quote) % 2 = m.hidden % 2 := parity
  rw [isEven, decide_eq_true_eq]
  by_cases literal : m.quote = some '\x27'
  · rw [openCount, if_pos literal] at total
    simp only [literal, ne_eq, not_true_eq_false, iff_false]
    omega
  · rw [openCount, if_neg literal] at total
    simp only [literal, ne_eq, not_false_eq_true, iff_true]
    omega

/-- Every other piece is the right one where an even number of apostrophes is hidden in front
of the end of a literal, and where an odd number is hidden in front of any other
apostrophe. -/
theorem isEven_eq_opensLiteral_iff (m : Mark) :
    m.isEven = m.opensLiteral ↔ (m.endsLiteral = true ↔ m.hidden % 2 = 0) := by
  rw [Bool.eq_iff_iff, isEven_iff, endsLiteral]
  by_cases literal : m.quote = some '\x27'
  · have inside : m.opensLiteral = false := by
      rw [opensLiteral, literal]
      rfl
    simp [literal, inside]
  · simp [literal, iff_comm]

theorem filter_eq_filter_iff {p q : Mark → Bool} {ms : List Mark} :
    ms.filter p = ms.filter q ↔ ∀ m ∈ ms, p m = q m := by
  refine ⟨fun h m hm => ?_, List.filter_congr⟩
  have both : m ∈ ms.filter p ↔ m ∈ ms.filter q := by rw [h]
  simp only [List.mem_filter, hm, true_and] at both
  exact Bool.eq_iff_iff.mpr both

end Mark

/-- The closed literals are what stands behind the apostrophes that open them. -/
theorem closedLiterals_eq (s : Text) :
    closedLiterals s = ((Mark.list s).filter Mark.opensLiteral).map Mark.piece :=
  (Mark.openedIn_eq rfl s).symm

theorem Statement.literals_eq (s : Statement) :
    s.literals = ((Mark.list s.text).filter Mark.isEven).map Mark.piece := by
  rw [Mark.list, Mark.map_piece_listFrom]
  rfl

end Dialect
