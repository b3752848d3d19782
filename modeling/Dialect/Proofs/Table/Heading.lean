import Dialect.Proofs.Name
import Dialect.Table.Basic

/-!
# Headings

What stands before the name of a table declaration, with the freedom that its grammar
leaves: keywords in any case and any run of blanks between them.  The reader of
declarations takes a heading and a name off the front and leaves the column list.
-/

namespace Dialect

/-- A keyword, written in any case. -/
abbrev Spelling (keyword : Text) := { w : Text // upper w = keyword }

abbrev BlankRun := { b : Text // b ≠ [] ∧ b.all isBlank = true }

abbrev SpaceRun := { s : Text // s.all isSpace = true }

def BlankRun.one : BlankRun := ⟨[' '], List.cons_ne_nil _ _, rfl⟩

def SpaceRun.one : SpaceRun := ⟨[' '], rfl⟩

def SpaceRun.none : SpaceRun := ⟨[], rfl⟩

section Runs

variable {keyword s : Text}

theorem Spelling.after (w : Spelling keyword) (hk : keyword.all continuesWord = true)
    (hs : ∀ c ∈ s.head?, continuesWord c = false) : afterKeyword? keyword (w.1 ++ s) = some s :=
  afterKeyword?_append w.2 hk hs

theorem Spelling.head (w : Spelling keyword) (hk : keyword.all continuesWord = true)
    (hne : keyword ≠ []) (s : Text) : ∀ c ∈ (w.1 ++ s).head?, continuesWord c = true := by
  have hw : w.1 ≠ [] := by
    intro he
    exact hne (by rw [← w.2, he]; rfl)
  exact head?_append_of_forall hw (continuesWord_of_upper_eq w.2 hk) s

theorem Spelling.head_not_blank (w : Spelling keyword) (hk : keyword.all continuesWord = true)
    (hne : keyword ≠ []) (s : Text) : ∀ c ∈ (w.1 ++ s).head?, isBlank c = false :=
  fun c hc => isBlank_of_continuesWord (w.head hk hne s c hc)

theorem SpaceRun.all (s : SpaceRun) : ∀ c ∈ s.1, isSpace c = true :=
  List.all_eq_true.mp s.2

theorem BlankRun.all (b : BlankRun) : ∀ c ∈ b.1, isBlank c = true :=
  List.all_eq_true.mp b.2.2

theorem BlankRun.after (b : BlankRun) (hs : ∀ c ∈ s.head?, isBlank c = false) :
    afterBlanks? (b.1 ++ s) = some s :=
  afterBlanks?_append b.2.1 b.all hs

theorem BlankRun.head (b : BlankRun) (s : Text) :
    ∀ c ∈ (b.1 ++ s).head?, continuesWord c = false :=
  head?_append_of_forall b.2.1 (fun c hc => continuesWord_of_isBlank (b.all c hc)) s

end Runs

/-- `IF NOT EXISTS` and the blanks behind it. -/
structure Guard where
  ifWord : Spelling "IF"
  afterIf : BlankRun
  notWord : Spelling "NOT"
  afterNot : BlankRun
  existsWord : Spelling "EXISTS"
  afterExists : BlankRun

namespace Guard

def text (g : Guard) : Text :=
  g.ifWord.1 ++ (g.afterIf.1 ++ (g.notWord.1 ++ (g.afterNot.1 ++
    (g.existsWord.1 ++ g.afterExists.1))))

theorem afterIfNotExists?_text (g : Guard) {s : Text} (hs : ∀ c ∈ s.head?, isBlank c = false) :
    Outline.afterIfNotExists? (g.text ++ s) = some s := by
  simp only [text, List.append_assoc, Outline.afterIfNotExists?, Option.bind_eq_bind]
  rw [g.ifWord.after (by decide) (g.afterIf.head _), Option.bind_some,
    g.afterIf.after (g.notWord.head_not_blank (by decide) (by decide) _), Option.bind_some,
    g.notWord.after (by decide) (g.afterNot.head _), Option.bind_some,
    g.afterNot.after (g.existsWord.head_not_blank (by decide) (by decide) _), Option.bind_some,
    g.existsWord.after (by decide) (g.afterExists.head _), Option.bind_some,
    g.afterExists.after hs]

end Guard

/-- Everything that stands before the name of a table. -/
structure Heading where
  create : Spelling "CREATE"
  afterCreate : BlankRun
  table : Spelling "TABLE"
  afterTable : BlankRun
  guard : Option Guard

namespace Heading

def text (h : Heading) : Text :=
  h.create.1 ++ (h.afterCreate.1 ++ (h.table.1 ++ (h.afterTable.1 ++ (h.guard.elim [] Guard.text))))

theorem afterCreateTable?_text (h : Heading) (s : Text) :
    afterCreateTable? (h.text ++ s) =
      some (h.afterTable.1 ++ (h.guard.elim [] Guard.text ++ s)) := by
  simp only [text, List.append_assoc, afterCreateTable?, Option.bind_eq_bind]
  rw [skipBlanks_eq_self (h.create.head_not_blank (by decide) (by decide) _),
    h.create.after (by decide) (h.afterCreate.head _), Option.bind_some,
    h.afterCreate.after (h.table.head_not_blank (by decide) (by decide) _), Option.bind_some,
    h.table.after (by decide) (h.afterTable.head _)]

theorem kind_text (h : Heading) (s : Text) : Kind.ofText (h.text ++ s) = .createTable := by
  rw [Kind.ofText, h.afterCreateTable?_text]
  rfl

theorem head?_text (h : Heading) (s : Text) : ∀ c ∈ (h.text ++ s).head?, isSpace c = false := by
  intro c hc
  rw [text, List.append_assoc] at hc
  exact isSpace_of_continuesWord (h.create.head (by decide) (by decide) _ c hc)

/-- Between a name and the parenthesis behind it stands no word. -/
theorem head?_skipBlanks_spaces (spaces : SpaceRun) (s : Text) :
    ∀ c ∈ (skipBlanks (spaces.1 ++ '(' :: s)).head?, continuesWord c = false := by
  intro c hc
  rw [skipBlanks, dropWhile_append_cons (by decide), List.head?_append] at hc
  cases hd : (spaces.1.dropWhile isBlank).head? with
  | none =>
    rw [hd] at hc
    rw [← Option.some.inj hc]
    decide
  | some d =>
    rw [hd] at hc
    rw [← Option.some.inj hc]
    have mem := (List.dropWhile_suffix _).subset (List.mem_of_mem_head? hd)
    exact continuesWord_of_isSpace (spaces.all d mem)

theorem head?_spaces (spaces : SpaceRun) (s : Text) :
    ∀ c ∈ (spaces.1 ++ '(' :: s).head?, isSpace c = true ∨ c = '(' := by
  intro c hc
  rw [List.head?_append] at hc
  cases hd : spaces.1.head? with
  | none =>
    rw [hd] at hc
    exact Or.inr (Option.some.inj hc).symm
  | some d =>
    rw [hd] at hc
    rw [← Option.some.inj hc]
    exact Or.inl (spaces.all d (List.mem_of_mem_head? hd))

/-- A name that is followed by a column list is no `IF NOT EXISTS`, even when the table
is called `IF`. -/
theorem afterIfNotExists?_name {name : Text} (hn : IsName name) (spaces : SpaceRun) (s : Text) :
    Outline.afterIfNotExists? (name ++ (spaces.1 ++ '(' :: s)) = none := by
  have seam : ∀ c ∈ (spaces.1 ++ '(' :: s).head?, continuesWord c = false := by
    intro c hc
    rcases head?_spaces spaces s c hc with h | rfl
    · exact continuesWord_of_isSpace h
    · decide
  rw [Outline.afterIfNotExists?, Option.bind_eq_bind]
  cases hi : afterKeyword? "IF" (name ++ (spaces.1 ++ '(' :: s)) with
  | none => rfl
  | some rest =>
    obtain ⟨hup, rfl⟩ := afterKeyword?_eq_some_iff.mp hi
    obtain ⟨c, t, ht⟩ := List.exists_cons_of_ne_nil
      (show spaces.1 ++ '(' :: s ≠ [] by simp)
    have hc : continuesWord c = false := seam c (by rw [ht]; rfl)
    have hword : leadingWord name ≠ [] := by
      intro he
      rw [ht, leadingWord_append_cons hc, he] at hup
      contradiction
    rw [Option.bind_some, ht, afterWord_append_cons hc, ← ht]
    cases ha : afterWord name with
    | nil =>
      cases hb : afterBlanks? (spaces.1 ++ '(' :: s) with
      | none => simp only [List.nil_append, hb]; rfl
      | some rest =>
        obtain rfl := eq_skipBlanks_of_afterBlanks? hb
        simp only [List.nil_append, hb, Option.bind_some]
        rw [afterKeyword?_eq_none (by decide) (head?_skipBlanks_spaces spaces s)]
        rfl
    | cons d u =>
      obtain rfl := hn.head?_afterWord hword d (by rw [ha]; rfl)
      rw [afterBlanks?_eq_none (by simp; decide)]
      rfl

/-- A name is read whole in front of a column list. -/
theorem leadingName?_name {name : Text} (hn : IsName name) (spaces : SpaceRun) (s : Text) :
    leadingName? (name ++ (spaces.1 ++ '(' :: s)) = some (name, spaces.1 ++ '(' :: s) := by
  apply leadingName?_append hn
  intro c hc
  rcases head?_spaces spaces s c hc with hs | rfl
  · exact continuesName_of_isSpace hs
  · decide

theorem header?_text (h : Heading) {name : Text} (hn : IsName name) (spaces : SpaceRun)
    (s : Text) :
    Outline.header? (h.text ++ (name ++ (spaces.1 ++ '(' :: s))) =
      some (h.guard.isSome, name, spaces.1 ++ '(' :: s) := by
  have hname : ∀ c ∈ (name ++ (spaces.1 ++ '(' :: s)).head?, isBlank c = false :=
    fun c hc => isBlank_of_isSpace (hn.head?_append _ c hc)
  have cut := leadingName?_name hn spaces s
  rw [Outline.header?, afterCreateTable?_text]
  cases hg : h.guard with
  | none =>
    simp only [Option.elim_none, List.nil_append, Option.bind_eq_bind, Option.bind_some,
      h.afterTable.after hname, afterIfNotExists?_name hn, cut]
    rfl
  | some g =>
    have hguard : ∀ c ∈ (g.text ++ (name ++ (spaces.1 ++ '(' :: s))).head?, isBlank c = false := by
      simp only [Guard.text, List.append_assoc]
      exact g.ifWord.head_not_blank (by decide) (by decide) _
    simp only [Option.elim_some, Option.bind_eq_bind, Option.bind_some,
      h.afterTable.after hguard, g.afterIfNotExists?_text hname, cut]
    rfl

end Heading
end Dialect
