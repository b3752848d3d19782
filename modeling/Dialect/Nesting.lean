import Dialect.Text.Blank

/-!
# Quotes and nesting

A left-to-right reading of a text keeps track of the quoted run it is in and of
how many parentheses are open.  The reading gives each character a role, and
everything that is cut out of a column list is cut at a role: a group at the
parenthesis that closes it, a list at its outermost commas.

Square brackets do not hide what stands between them from this reading.
-/

namespace Dialect

/-- The characters that open a quoted run.  The same character closes it. -/
def isQuote (c : Char) : Bool := c = '\x27' || c = '\x22' || c = '\x60'

theorem isBlank_of_isQuote {c : Char} (h : isQuote c = true) : isBlank c = false := by
  simp only [isQuote, Bool.or_eq_true, decide_eq_true_eq] at h
  rcases h with (rfl | rfl) | rfl <;> rfl

/-- Where a reading stands. -/
structure Reading where
  /-- The character that closes the quoted run the reading is in. -/
  quote : Option Char
  /-- How many parentheses are open. -/
  depth : Nat
  deriving DecidableEq, Repr

/-- What a character does in a text.  A parenthesis carries the depth of the
group that it belongs to, so both ends of a group carry the same number, and a
comma the depth of the group that it stands in.  A closing parenthesis that
closes nothing has depth zero. -/
inductive Role where
  | opening (depth : Nat)
  | closing (depth : Nat)
  | comma (depth : Nat)
  | plain
  deriving DecidableEq, Repr

namespace Reading

/-- The reading before the first character. -/
def start : Reading := ⟨none, 0⟩

def role (r : Reading) (c : Char) : Role :=
  if r.quote.isSome then .plain
  else if c = '(' then .opening (r.depth + 1)
  else if c = ')' then .closing r.depth
  else if c = ',' then .comma r.depth
  else .plain

def step (r : Reading) (c : Char) : Reading :=
  match r.quote with
  | some q => if c = q then { r with quote := none } else r
  | none =>
    if isQuote c then { r with quote := some c }
    else if c = '(' then { r with depth := r.depth + 1 }
    else if c = ')' then { r with depth := r.depth - 1 }
    else r

/-- Each character with its role. -/
def roles (r : Reading) : Text → List (Char × Role)
  | [] => []
  | c :: s => (c, r.role c) :: roles (r.step c) s

/-- Where the reading stands after a text. -/
def run (r : Reading) (s : Text) : Reading := s.foldl step r

theorem roles_append (r : Reading) (s t : Text) :
    r.roles (s ++ t) = r.roles s ++ (r.run s).roles t := by
  induction s generalizing r with
  | nil => rfl
  | cons c s ih => simp [roles, run, ih]

theorem run_append (r : Reading) (s t : Text) : r.run (s ++ t) = (r.run s).run t :=
  List.foldl_append

theorem eq_of_role_closing {r : Reading} {c : Char} {d : Nat} (h : r.role c = .closing d) :
    c = ')' := by
  unfold role at h
  split at h
  · simp at h
  · split at h
    · simp at h
    · split at h
      · assumption
      · split at h <;> simp at h

theorem role_of_mem_roles {r : Reading} {s : Text} {p : Char × Role} (h : p ∈ r.roles s) :
    ∃ r' : Reading, p.2 = r'.role p.1 := by
  induction s generalizing r with
  | nil => simp [roles] at h
  | cons c s ih =>
    rcases List.mem_cons.mp h with rfl | h
    · exact ⟨r, rfl⟩
    · exact ih h

theorem map_fst_roles (r : Reading) (s : Text) : (r.roles s).map Prod.fst = s := by
  induction s generalizing r with
  | nil => rfl
  | cons c s ih => simp [roles, ih]

end Reading

/-- The inside of the group whose opening parenthesis begins the text, and the
text after its closing parenthesis. -/
def group? : Text → Option (Text × Text)
  | '(' :: s =>
    let roles := Reading.roles ⟨none, 1⟩ s
    match roles.dropWhile (·.2 ≠ .closing 1) with
    | _ :: rest => some ((roles.takeWhile (·.2 ≠ .closing 1)).map Prod.fst, rest.map Prod.fst)
    | [] => none
  | _ => none

/-- A group is cut out with its two parentheses and nothing else. -/
theorem eq_append_of_group? {s inside rest : Text} (h : group? s = some (inside, rest)) :
    s = '(' :: inside ++ ')' :: rest := by
  unfold group? at h
  split at h
  · next s =>
    simp only at h
    split at h
    · next p tail hd =>
      simp only [Option.some.injEq, Prod.mk.injEq] at h
      obtain ⟨rfl, rfl⟩ := h
      have hp : p.2 = .closing 1 := by
        have := List.head?_dropWhile_not (fun p : Char × Role => p.2 ≠ .closing 1)
          (Reading.roles ⟨none, 1⟩ s)
        rw [hd] at this
        simpa using this
      have mem : p ∈ Reading.roles ⟨none, 1⟩ s :=
        (List.dropWhile_sublist _).subset (hd ▸ List.mem_cons_self)
      obtain ⟨r, hr⟩ := Reading.role_of_mem_roles mem
      have hc : p.1 = ')' := Reading.eq_of_role_closing (hr ▸ hp)
      have whole := congrArg (List.map Prod.fst) (List.takeWhile_append_dropWhile
        (p := fun p : Char × Role => p.2 ≠ .closing 1) (l := Reading.roles ⟨none, 1⟩ s))
      rw [hd, List.map_append, List.map_cons, hc, Reading.map_fst_roles] at whole
      rw [List.cons_append, whole]
    · simp at h
  · simp at h

/-- The pieces between the outermost commas, trimmed.  Empty pieces are left
out. -/
def outermostPieces (s : Text) : List Text :=
  let pieces := (Reading.start.roles s).splitOnP fun p => p.2 = .comma 0
  (pieces.map fun piece => trim (piece.map Prod.fst)).filter (! ·.isEmpty)

end Dialect
