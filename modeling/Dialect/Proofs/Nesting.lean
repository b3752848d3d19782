import Dialect.Nesting
import Dialect.Proofs.Text

/-!
# Readings of composed texts

A reading that closes only groups it has opened does not depend on the depth where it
begins, apart from a shift of all the depths in it.  So what a group holds can be
read on its own, as the inside of `group?` and as the pieces of a column list are.
-/

namespace Dialect

def Role.raise (k : Nat) : Role → Role
  | opening d => opening (d + k)
  | closing d => closing (d + k)
  | comma d => comma (d + k)
  | plain => plain

theorem Role.raise_eq_closing {k d : Nat} {x : Role} (h : x.raise k = .closing (d + k)) :
    x = .closing d := by
  cases x <;> simp_all [raise]

theorem Role.raise_eq_closing_zero {k : Nat} {x : Role} (h : x.raise k = .closing 0) :
    x = .closing 0 := by
  cases x <;> simp_all [raise]

theorem Role.raise_eq_comma_zero {k : Nat} {x : Role} (h : x.raise k = .comma 0) :
    x = .comma 0 := by
  cases x <;> simp_all [raise]

namespace Reading

def raise (k : Nat) (r : Reading) : Reading := { r with depth := r.depth + k }

/-- No character of the text has the role. -/
def Avoids (r : Reading) (x : Role) (s : Text) : Prop := ∀ p ∈ r.roles s, p.2 ≠ x

instance (r : Reading) (x : Role) (s : Text) : Decidable (r.Avoids x s) :=
  inferInstanceAs (Decidable (∀ p ∈ r.roles s, p.2 ≠ x))

section Avoiding

variable {r : Reading} {x : Role} {c : Char} {s t : Text}

theorem avoids_nil : r.Avoids x [] := by simp [Avoids, roles]

theorem avoids_cons : r.Avoids x (c :: s) ↔ r.role c ≠ x ∧ (r.step c).Avoids x s := by
  simp [Avoids, roles]

theorem avoids_append : r.Avoids x (s ++ t) ↔ r.Avoids x s ∧ (r.run s).Avoids x t := by
  simp only [Avoids, roles_append, List.mem_append]
  constructor
  · intro h
    exact ⟨fun p hp => h p (Or.inl hp), fun p hp => h p (Or.inr hp)⟩
  · rintro ⟨hs, ht⟩ p (hp | hp)
    · exact hs p hp
    · exact ht p hp

theorem run_cons (r : Reading) (c : Char) (s : Text) : r.run (c :: s) = (r.step c).run s := rfl

theorem exists_first (h : ¬ r.Avoids x s) :
    ∃ t c u, s = t ++ c :: u ∧ r.Avoids x t ∧ (r.run t).role c = x := by
  induction s generalizing r with
  | nil => exact absurd avoids_nil h
  | cons c s ih =>
    by_cases hc : r.role c = x
    · exact ⟨[], c, s, rfl, avoids_nil, hc⟩
    · have hs : ¬ (r.step c).Avoids x s := fun hs => h (avoids_cons.mpr ⟨hc, hs⟩)
      obtain ⟨t, d, u, rfl, ht, hd⟩ := ih hs
      exact ⟨c :: t, d, u, rfl, avoids_cons.mpr ⟨hc, ht⟩, hd⟩

theorem eq_of_role_comma {d : Nat} (h : r.role c = .comma d) : r = ⟨none, d⟩ ∧ c = ',' := by
  obtain ⟨quote, depth⟩ := r
  unfold role at h
  split at h
  · simp at h
  · next hq =>
    split at h
    · simp at h
    · split at h
      · simp at h
      · split at h
        · next hc => simp_all
        · simp at h

theorem eq_of_role_closing_depth {d : Nat} (h : r.role c = .closing d) :
    r = ⟨none, d⟩ ∧ c = ')' := by
  refine ⟨?_, eq_of_role_closing h⟩
  obtain rfl := eq_of_role_closing h
  obtain ⟨quote, depth⟩ := r
  cases quote <;> simp_all [role]

end Avoiding

/-! ## Raising the depth -/

section Raising

variable {r : Reading} {x : Role} {c : Char} {s : Text}

theorem role_raise (k : Nat) (r : Reading) (c : Char) :
    (r.raise k).role c = (r.role c).raise k := by
  unfold role raise
  simp only
  repeat' split
  all_goals simp only [Role.raise, Nat.add_right_comm]

/-- Depths stay apart by the same number as long as nothing is closed at depth zero,
where a closing parenthesis would leave the lower depth as it is. -/
theorem step_raise (k : Nat) (h : r.role c ≠ .closing 0) :
    (r.raise k).step c = (r.step c).raise k := by
  obtain ⟨quote, depth⟩ := r
  cases quote with
  | some q =>
    simp only [step, raise]
    split <;> rfl
  | none =>
    by_cases hc : c = ')'
    · subst hc
      have : depth ≠ 0 := by rintro rfl; exact h rfl
      simp only [step, raise, isQuote]
      simp
      omega
    · simp only [step, raise, hc, if_false]
      repeat' split
      all_goals simp only [Nat.add_right_comm]

theorem run_raise (k : Nat) (h : r.Avoids (.closing 0) s) :
    (r.raise k).run s = (r.run s).raise k := by
  induction s generalizing r with
  | nil => rfl
  | cons c s ih =>
    rw [avoids_cons] at h
    rw [run_cons, run_cons, step_raise k h.1, ih h.2]

theorem roles_raise (k : Nat) (h : r.Avoids (.closing 0) s) :
    (r.raise k).roles s = (r.roles s).map fun p => (p.1, p.2.raise k) := by
  induction s generalizing r with
  | nil => rfl
  | cons c s ih =>
    rw [avoids_cons] at h
    rw [roles, roles, role_raise, step_raise k h.1, ih h.2]
    rfl

theorem avoids_raise {k : Nat} {y : Role} (hxy : ∀ z : Role, z.raise k = y → z = x)
    (h : r.Avoids (.closing 0) s) (hx : r.Avoids x s) : (r.raise k).Avoids y s := by
  intro p hp he
  rw [roles_raise k h] at hp
  obtain ⟨z, hz, rfl⟩ := List.mem_map.mp hp
  exact hx z hz (hxy z.2 he)

/-- A group that is not closed closes only what it has opened itself. -/
theorem avoids_of_raise {k : Nat} (h : (r.raise k).Avoids (.closing k) s) :
    r.Avoids (.closing 0) s := by
  induction s generalizing r with
  | nil => exact avoids_nil
  | cons c s ih =>
    rw [avoids_cons, role_raise] at h
    have hc : r.role c ≠ .closing 0 := by
      intro hc
      rw [hc] at h
      exact h.1 (by simp [Role.raise])
    rw [step_raise k hc] at h
    exact avoids_cons.mpr ⟨hc, ih h.2⟩

end Raising

/-! ## Texts that close what they open -/

/-- Read from the start, the text closes only groups that it has opened, leaves `k`
groups open and ends outside quotes. -/
structure Leaves (k : Nat) (s : Text) : Prop where
  contained : start.Avoids (.closing 0) s
  run : start.run s = ⟨none, k⟩

abbrev Balanced (s : Text) : Prop := Leaves 0 s

/-- A text that leaves `k` groups open and has no comma outside groups. -/
structure Sealed (k : Nat) (s : Text) : Prop extends Leaves k s where
  comma : start.Avoids (.comma 0) s

section Leaving

variable {j k : Nat} {c q : Char} {s t : Text}

theorem raise_inj {r r' : Reading} (h : r.raise k = r'.raise k) : r = r' := by
  obtain ⟨quote, depth⟩ := r
  obtain ⟨quote', depth'⟩ := r'
  simpa [raise] using h

theorem start_raise (k : Nat) : start.raise k = ⟨none, k⟩ := by simp [start, raise]

theorem leaves_nil : Leaves 0 [] := ⟨avoids_nil, rfl⟩

theorem leaves_append (hs : Leaves j s) (ht : Leaves k t) : Leaves (j + k) (s ++ t) := by
  constructor
  · rw [avoids_append, hs.run, ← start_raise]
    exact ⟨hs.contained,
      avoids_raise (fun _ => Role.raise_eq_closing_zero) ht.contained ht.contained⟩
  · rw [run_append, hs.run, ← start_raise, run_raise j ht.contained, ht.run, raise]
    simp [Nat.add_comm]

/-- Behind an opening parenthesis the text does not close it. -/
theorem Leaves.behind_opening (h : Leaves k s) :
    Avoids ⟨none, 1⟩ (.closing 1) s ∧ Reading.run ⟨none, 1⟩ s = ⟨none, k + 1⟩ := by
  refine ⟨avoids_raise (k := 1) (fun _ => Role.raise_eq_closing) h.contained h.contained, ?_⟩
  rw [← start_raise, run_raise 1 h.contained, h.run]
  rfl

theorem sealed_append (hs : Sealed j s) (ht : Sealed k t) : Sealed (j + k) (s ++ t) := by
  refine ⟨leaves_append hs.toLeaves ht.toLeaves, ?_⟩
  rw [avoids_append, hs.run, ← start_raise]
  exact ⟨hs.comma, avoids_raise (fun _ => Role.raise_eq_comma_zero) ht.contained ht.comma⟩

def isPlain (c : Char) : Bool := ! isQuote c && c ≠ '(' && c ≠ ')' && c ≠ ','

theorem roles_of_plain (h : ∀ c ∈ s, isPlain c = true) :
    (∀ p ∈ start.roles s, p.2 = .plain) ∧ start.run s = start := by
  induction s with
  | nil => exact ⟨by simp [roles], rfl⟩
  | cons c s ih =>
    have hc := h c List.mem_cons_self
    simp only [isPlain, Bool.and_eq_true, Bool.not_eq_true', decide_eq_true_eq] at hc
    obtain ⟨⟨⟨hq, ho⟩, hcl⟩, hcm⟩ := hc
    have hstep : start.step c = start := by simp [step, start, hq, ho, hcl]
    have hrole : start.role c = .plain := by simp [role, start, ho, hcl, hcm]
    obtain ⟨hroles, hrun⟩ := ih fun d hd => h d (List.mem_cons_of_mem c hd)
    constructor
    · intro p hp
      rw [roles, hstep, hrole] at hp
      rcases List.mem_cons.mp hp with rfl | hp
      · rfl
      · exact hroles p hp
    · rw [run_cons, hstep, hrun]

theorem roles_of_quoted (h : q ∉ s) :
    (∀ p ∈ roles ⟨some q, 0⟩ s, p.2 = .plain) ∧ run ⟨some q, 0⟩ s = ⟨some q, 0⟩ := by
  induction s with
  | nil => exact ⟨by simp [roles], rfl⟩
  | cons c s ih =>
    rw [List.mem_cons, not_or] at h
    have hstep : step ⟨some q, 0⟩ c = ⟨some q, 0⟩ := by simp [step, Ne.symm h.1]
    obtain ⟨hroles, hrun⟩ := ih h.2
    constructor
    · intro p hp
      rw [roles, hstep] at hp
      rcases List.mem_cons.mp hp with rfl | hp
      · rfl
      · exact hroles p hp
    · rw [run_cons, hstep, hrun]

theorem sealed_of_roles_plain (h : ∀ p ∈ start.roles s, p.2 = .plain)
    (hrun : start.run s = start) : Sealed 0 s := by
  refine ⟨⟨?_, hrun⟩, ?_⟩ <;>
  · intro p hp
    rw [h p hp]
    simp

theorem sealed_of_plain (h : ∀ c ∈ s, isPlain c = true) : Sealed 0 s :=
  sealed_of_roles_plain (roles_of_plain h).1 (roles_of_plain h).2

/-- A quoted run between its quotes. -/
theorem roles_of_literal (hq : isQuote q = true) (h : q ∉ s) :
    (∀ p ∈ start.roles (q :: s ++ [q]), p.2 = .plain) ∧ start.run (q :: s ++ [q]) = start := by
  have hopen : start.step q = ⟨some q, 0⟩ := by simp [step, start, hq]
  have hrole : start.role q = .plain := by
    simp only [isQuote, Bool.or_eq_true, decide_eq_true_eq] at hq
    rcases hq with (rfl | rfl) | rfl <;> rfl
  obtain ⟨hroles, hrun⟩ := roles_of_quoted h
  constructor
  · intro p hp
    rw [List.cons_append, roles, hopen, roles_append, hrun] at hp
    simp only [List.mem_cons, List.mem_append] at hp
    rcases hp with rfl | hp | hp
    · exact hrole
    · exact hroles p hp
    · simp only [roles, List.mem_cons, List.not_mem_nil, or_false] at hp
      rw [hp]
      rfl
  · rw [List.cons_append, run_cons, hopen, run_append, hrun]
    simp [run, step, start]

theorem sealed_of_quoted (hq : isQuote q = true) (h : q ∉ s) : Sealed 0 (q :: s ++ [q]) :=
  sealed_of_roles_plain (roles_of_literal hq h).1 (roles_of_literal hq h).2

theorem sealed_group (h : Balanced s) : Sealed 0 ('(' :: (s ++ [')'])) := by
  have hopen : start.step '(' = start.raise 1 := rfl
  have hrun : (start.raise 1).run s = start.raise 1 := h.behind_opening.2
  have avoids {x : Role} (hx : ∀ z : Role, z.raise 1 ≠ x) :
      (start.raise 1).Avoids x (s ++ [')']) := by
    rw [avoids_append, hrun, avoids_cons]
    refine ⟨avoids_raise (fun z hz => absurd hz (hx z)) h.contained h.contained, ?_, avoids_nil⟩
    exact fun he => hx (.closing 0) he
  refine ⟨⟨?_, ?_⟩, ?_⟩
  · rw [avoids_cons, hopen]
    exact ⟨by decide, avoids fun z => by cases z <;> simp [Role.raise]⟩
  · rw [run_cons, hopen, run_append, hrun]
    rfl
  · rw [avoids_cons, hopen]
    exact ⟨by decide, avoids fun z => by cases z <;> simp [Role.raise]⟩

theorem isPlain_of_not_mem (h : c ∉ ['\x27', '\x22', '\x60', '(', ')', ',']) :
    isPlain c = true := by
  simp only [List.mem_cons, List.not_mem_nil, or_false, not_or] at h
  simp [isPlain, isQuote, h]

theorem isPlain_of_isSpace (h : isSpace c = true) : isPlain c = true := by
  have all : spaces.all isPlain = true := by decide +kernel
  exact List.all_eq_true.mp all c (List.contains_iff_mem.mp h)

end Leaving

theorem isSpace_of_isQuote {c : Char} (h : isQuote c = true) : isSpace c = false := by
  apply Bool.eq_false_iff.mpr
  intro hs
  have plain := isPlain_of_isSpace hs
  simp [isPlain, h] at plain

/-! ## Quotes -/

/-- The quote that a reading is in behind one more character. -/
def nextQuote (q : Option Char) (c : Char) : Option Char := (step ⟨q, 0⟩ c).quote

section Quotes

variable {c q : Char} {s : Text}

theorem quote_step (r : Reading) (c : Char) : (r.step c).quote = nextQuote r.quote c := by
  obtain ⟨q, d⟩ := r
  unfold nextQuote
  cases q with
  | none =>
    simp only [step]
    repeat' split
    all_goals rfl
  | some q =>
    simp only [step]
    split <;> rfl

/-- Parentheses do not count for quotes. -/
theorem quote_run (r : Reading) (s : Text) : (r.run s).quote = s.foldl nextQuote r.quote := by
  induction s generalizing r with
  | nil => rfl
  | cons c s ih => rw [run_cons, ih, quote_step, List.foldl_cons]

theorem foldl_nextQuote_of_run (h : start.run s = start) : s.foldl nextQuote none = none := by
  have place := quote_run start s
  rw [h] at place
  exact place.symm

theorem foldl_nextQuote_of_plain (h : ∀ c ∈ s, isPlain c = true) :
    s.foldl nextQuote none = none :=
  foldl_nextQuote_of_run (roles_of_plain h).2

theorem nextQuote_of_isPlain (h : isPlain c = true) : nextQuote none c = none :=
  foldl_nextQuote_of_plain (s := [c]) (by simpa using h)

theorem nextQuote_of_isQuote (hq : isQuote q = true) : nextQuote none q = some q := by
  simp [nextQuote, step, hq]

theorem nextQuote_of_not_quote (hc : isQuote c = false) : nextQuote none c = none := by
  simp only [nextQuote, step, hc, Bool.false_eq_true, if_false]
  repeat' split
  all_goals rfl

/-- Only a quote opens a quoted run. -/
theorem foldl_nextQuote_of_not_quote (h : ∀ c ∈ s, isQuote c = false) :
    s.foldl nextQuote none = none := by
  induction s with
  | nil => rfl
  | cons c s ih =>
    rw [List.foldl_cons, nextQuote_of_not_quote (h c List.mem_cons_self),
      ih fun d hd => h d (List.mem_cons_of_mem c hd)]

theorem nextQuote_self (q : Char) : nextQuote (some q) q = none := by simp [nextQuote, step]

theorem nextQuote_of_ne (h : c ≠ q) : nextQuote (some q) c = some q := by
  simp [nextQuote, step, h]

theorem foldl_nextQuote_of_not_mem (h : q ∉ s) : s.foldl nextQuote (some q) = some q := by
  induction s with
  | nil => rfl
  | cons c s ih =>
    rw [List.mem_cons, not_or] at h
    rw [List.foldl_cons, nextQuote_of_ne (Ne.symm h.1), ih h.2]

theorem foldl_nextQuote_closed {inside : Text} (hq : isQuote q = true) (h : q ∉ inside)
    (rest : Text) :
    (q :: (inside ++ q :: rest)).foldl nextQuote none = rest.foldl nextQuote none := by
  rw [List.foldl_cons, nextQuote_of_isQuote hq, List.foldl_append, foldl_nextQuote_of_not_mem h,
    List.foldl_cons, nextQuote_self]

theorem isPlain_of_isBlank (h : isBlank c = true) : isPlain c = true :=
  isPlain_of_isSpace (isSpace_of_isBlank h)

/-- What does nothing to a reading at the start does nothing to it at any depth. -/
theorem roles_plain_at (d : Nat) (h : ∀ p ∈ start.roles s, p.2 = .plain)
    (hrun : start.run s = start) :
    (∀ p ∈ roles ⟨none, d⟩ s, p.2 = .plain) ∧ run ⟨none, d⟩ s = ⟨none, d⟩ := by
  have contained := (sealed_of_roles_plain h hrun).contained
  rw [← start_raise]
  constructor
  · intro p hp
    rw [roles_raise d contained] at hp
    obtain ⟨z, hz, rfl⟩ := List.mem_map.mp hp
    rw [h z hz]
    rfl
  · rw [run_raise d contained, hrun]

theorem roles_of_plain_at (d : Nat) (h : ∀ c ∈ s, isPlain c = true) :
    (∀ p ∈ roles ⟨none, d⟩ s, p.2 = .plain) ∧ run ⟨none, d⟩ s = ⟨none, d⟩ :=
  roles_plain_at d (roles_of_plain h).1 (roles_of_plain h).2

/-- Outside quotes a literal does nothing. -/
theorem roles_literal {r : Reading} (hq : isQuote q = true) (hs : q ∉ s) (hr : r.quote = none) :
    (∀ p ∈ r.roles (q :: s ++ [q]), p.2 = .plain) ∧ r.run (q :: s ++ [q]) = r := by
  obtain ⟨quote, depth⟩ := r
  obtain rfl : quote = none := hr
  exact roles_plain_at depth (roles_of_literal hq hs).1 (roles_of_literal hq hs).2

end Quotes
end Reading

open Reading

/-! ## Groups -/

section Groups

variable {s inside rest : Text}

theorem group?_of_balanced (h : Balanced inside) (rest : Text) :
    group? ('(' :: (inside ++ ')' :: rest)) = some (inside, rest) := by
  obtain ⟨contained, hrun⟩ := h.behind_opening
  have before : ∀ p ∈ roles ⟨none, 1⟩ inside, (decide (p.2 ≠ .closing 1)) = true :=
    fun p hp => decide_eq_true (contained p hp)
  have closes : role ⟨none, 1⟩ ')' = .closing 1 := rfl
  simp only [group?, roles_append, hrun, roles, closes]
  rw [List.dropWhile_append_of_pos before, List.takeWhile_append_of_pos before]
  simp [map_fst_roles]

theorem group?_eq_none_of_head (h : s.head? ≠ some '(') : group? s = none := by
  cases s with
  | nil => rfl
  | cons c s =>
    unfold group?
    split
    · next he => exact absurd rfl (he ▸ h)
    · rfl

theorem group?_eq_none (h : Avoids ⟨none, 1⟩ (.closing 1) s) : group? ('(' :: s) = none := by
  have before : ∀ p ∈ roles ⟨none, 1⟩ s, (decide (p.2 ≠ .closing 1)) = true :=
    fun p hp => decide_eq_true (h p hp)
  have none : (roles ⟨none, 1⟩ s).dropWhile (fun p => p.2 ≠ .closing 1) = [] := by
    rw [← List.append_nil (roles ⟨none, 1⟩ s), List.dropWhile_append_of_pos before,
      List.dropWhile_nil]
  simp only [group?, none]

/-- A group is not closed by the parenthesis that closes a group inside it. -/
theorem group?_of_leaves {k : Nat} (h : Leaves k s) (hk : k ≠ 0) :
    group? ('(' :: (s ++ [')'])) = none := by
  obtain ⟨contained, hrun⟩ := h.behind_opening
  have closes : role ⟨none, k + 1⟩ ')' ≠ .closing 1 := by
    show Role.closing (k + 1) ≠ Role.closing 1
    simpa using hk
  refine group?_eq_none (avoids_append.mpr ⟨contained, ?_⟩)
  rw [hrun]
  exact avoids_cons.mpr ⟨closes, avoids_nil⟩

/-- What stands in front of the first parenthesis that closes a group is balanced. -/
theorem balanced_of_avoids (h : Avoids ⟨none, 1⟩ (.closing 1) inside)
    (hrun : run ⟨none, 1⟩ inside = ⟨none, 1⟩) : Balanced inside := by
  have contained : start.Avoids (.closing 0) inside := avoids_of_raise (k := 1) h
  refine ⟨contained, ?_⟩
  rw [← start_raise, run_raise 1 contained] at hrun
  exact raise_inj hrun

theorem balanced_of_group? (h : group? s = some (inside, rest)) :
    s = '(' :: (inside ++ ')' :: rest) ∧ Balanced inside := by
  cases s with
  | nil => simp [group?] at h
  | cons c s =>
    obtain rfl : c = '(' := (List.cons.inj (eq_append_of_group? h)).1
    have closed : ¬ Avoids ⟨none, 1⟩ (.closing 1) s := by
      intro ha
      rw [group?_eq_none ha] at h
      contradiction
    obtain ⟨t, d, u, rfl, ht, hd⟩ := exists_first closed
    obtain ⟨hrun, rfl⟩ := eq_of_role_closing_depth hd
    have balanced := balanced_of_avoids ht hrun
    rw [group?_of_balanced balanced] at h
    simp only [Option.some.injEq, Prod.mk.injEq] at h
    obtain ⟨rfl, rfl⟩ := h
    exact ⟨rfl, balanced⟩

end Groups

/-! ## Pieces of a list -/

section Pieces

variable {s t : Text}

theorem outermostPieces_append (h : start.run s = start) (t : Text) :
    outermostPieces (s ++ ',' :: t) = outermostPieces s ++ outermostPieces t := by
  have hcomma : role start ',' = .comma 0 := rfl
  have hstep : step start ',' = start := rfl
  simp only [outermostPieces, roles_append, h, roles, hcomma, hstep]
  rw [List.splitOnP_append_cons _ _ (by simp), List.map_append, List.filter_append]

theorem outermostPieces_of_avoids (h : start.Avoids (.comma 0) s) :
    outermostPieces s = [trim s].filter (! ·.isEmpty) := by
  rw [outermostPieces, List.splitOnP_eq_singleton fun p hp => decide_eq_false (h p hp)]
  simp [map_fst_roles]

/-- A list is one piece, or a piece and a comma and a shorter list. -/
theorem outermost_induction {P : Text → Prop}
    (piece : ∀ s, start.Avoids (.comma 0) s → P s)
    (list : ∀ s t, start.Avoids (.comma 0) s → start.run s = start → P t → P (s ++ ',' :: t))
    (s : Text) : P s := by
  by_cases h : start.Avoids (.comma 0) s
  · exact piece s h
  · obtain ⟨t, c, u, hs, ht, hc⟩ := exists_first h
    obtain ⟨hrun, rfl⟩ := eq_of_role_comma hc
    rw [hs]
    exact list t u ht hrun (outermost_induction piece list u)
termination_by s.length
decreasing_by simp [hs]; omega

theorem avoids_trim {x : Role} (h : start.Avoids x s) : start.Avoids x (trim s) := by
  obtain ⟨a, b, hs, _, ha, _⟩ := eq_append_trim s
  have front : start.run a = start := (roles_of_plain fun c hc => isPlain_of_isSpace (ha c hc)).2
  rw [hs, avoids_append, avoids_append, front] at h
  exact h.1.2

/-- A piece is what stands between two outermost commas, trimmed, and the reading is at its
start in front of it. -/
theorem exists_of_mem_outermostPieces {p : Text} (hp : p ∈ outermostPieces s) :
    ∃ a t b, s = a ++ t ++ b ∧ start.run a = start ∧ start.Avoids (.comma 0) t ∧ p = trim t := by
  induction s using outermost_induction with
  | piece s hs =>
    rw [outermostPieces_of_avoids hs] at hp
    exact ⟨[], s, [], by simp, rfl, hs, List.mem_singleton.mp (List.mem_filter.mp hp).1⟩
  | list s t hs hrun ih =>
    rw [outermostPieces_append hrun, List.mem_append] at hp
    rcases hp with hp | hp
    · rw [outermostPieces_of_avoids hs] at hp
      exact ⟨[], s, ',' :: t, rfl, rfl, hs, List.mem_singleton.mp (List.mem_filter.mp hp).1⟩
    · obtain ⟨a, u, b, rfl, ha, hu, he⟩ := ih hp
      refine ⟨s ++ ',' :: a, u, b, by simp, ?_, hu, he⟩
      rw [run_append, hrun, run_cons]
      exact ha

theorem avoids_of_mem_outermostPieces {p : Text} (h : start.Avoids (.closing 0) s)
    (hp : p ∈ outermostPieces s) :
    start.Avoids (.closing 0) p ∧ start.Avoids (.comma 0) p := by
  obtain ⟨a, t, b, rfl, ha, ht, rfl⟩ := exists_of_mem_outermostPieces hp
  rw [avoids_append, avoids_append, ha] at h
  exact ⟨avoids_trim h.1.2, avoids_trim ht⟩

end Pieces
end Dialect
