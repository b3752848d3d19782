import Dialect.Proofs.Table.Heading

/-!
# Written outlines

The reader of outlines accepts exactly the texts that its grammar writes.  A written
outline keeps every part of its text, down to the blanks between two words, and the text
gives each part back: what ends a part never belongs to its class of characters, and the
column list ends where its group is closed.
-/

namespace Dialect

open Reading

/-! ## Parts in front of a text

Each reader of one part takes off what that part may be written as, and two ways to put
the same part in front of a text are the same way. -/

section Parts

variable {keyword a b s t rest : Text}

theorem append_inj_of_run {p : Char → Bool} (ha : ∀ c ∈ a, p c = true) (hb : ∀ c ∈ b, p c = true)
    (hs : ∀ c ∈ s.head?, p c = false) (ht : ∀ c ∈ t.head?, p c = false)
    (h : a ++ s = b ++ t) : a = b ∧ s = t := by
  constructor
  · rw [← takeWhile_run ha hs, h, takeWhile_run hb ht]
  · rw [← dropWhile_run ha hs, h, dropWhile_run hb ht]

theorem Spelling.exists_of_afterKeyword? (h : afterKeyword? keyword s = some rest) :
    ∃ w : Spelling keyword, s = w.1 ++ rest := by
  obtain ⟨hw, rfl⟩ := afterKeyword?_eq_some_iff.mp h
  exact ⟨⟨leadingWord s, hw⟩, (leadingWord_append_afterWord s).symm⟩

theorem Spelling.append_inj {v w : Spelling keyword} (hk : keyword.all continuesWord = true)
    (hs : ∀ c ∈ s.head?, continuesWord c = false) (ht : ∀ c ∈ t.head?, continuesWord c = false)
    (h : v.1 ++ s = w.1 ++ t) : v = w ∧ s = t := by
  obtain ⟨word, rest⟩ := append_inj_of_run (continuesWord_of_upper_eq v.2 hk)
    (continuesWord_of_upper_eq w.2 hk) hs ht h
  exact ⟨Subtype.ext word, rest⟩

theorem BlankRun.exists_of_afterBlanks? (h : afterBlanks? s = some rest) :
    ∃ b : BlankRun, s = b.1 ++ rest := by
  cases s with
  | nil => simp [afterBlanks?] at h
  | cons c s =>
    simp only [afterBlanks?, Option.ite_none_right_eq_some, Option.some.injEq] at h
    obtain ⟨hc, rfl⟩ := h
    have run : (c :: s.takeWhile isBlank).all isBlank = true := by
      rw [List.all_cons, hc, List.all_takeWhile, Bool.and_self]
    refine ⟨⟨c :: s.takeWhile isBlank, List.cons_ne_nil _ _, run⟩, ?_⟩
    rw [List.cons_append, skipBlanks, List.takeWhile_append_dropWhile]

theorem BlankRun.append_inj {b b' : BlankRun} (hs : ∀ c ∈ s.head?, isBlank c = false)
    (ht : ∀ c ∈ t.head?, isBlank c = false) (h : b.1 ++ s = b'.1 ++ t) : b = b' ∧ s = t := by
  obtain ⟨run, rest⟩ := append_inj_of_run b.all b'.all hs ht h
  exact ⟨Subtype.ext run, rest⟩

end Parts

/-! ## Headings -/

section Headings

variable {s t rest : Text}

theorem Guard.exists_of_afterIfNotExists? (h : Outline.afterIfNotExists? s = some rest) :
    ∃ g : Guard, s = g.text ++ rest := by
  simp only [Outline.afterIfNotExists?, Option.bind_eq_bind, Option.bind_eq_some_iff] at h
  obtain ⟨r₁, h₁, r₂, h₂, r₃, h₃, r₄, h₄, r₅, h₅, h₆⟩ := h
  obtain ⟨ifWord, rfl⟩ := Spelling.exists_of_afterKeyword? h₁
  obtain ⟨afterIf, rfl⟩ := BlankRun.exists_of_afterBlanks? h₂
  obtain ⟨notWord, rfl⟩ := Spelling.exists_of_afterKeyword? h₃
  obtain ⟨afterNot, rfl⟩ := BlankRun.exists_of_afterBlanks? h₄
  obtain ⟨existsWord, rfl⟩ := Spelling.exists_of_afterKeyword? h₅
  obtain ⟨afterExists, rfl⟩ := BlankRun.exists_of_afterBlanks? h₆
  refine ⟨{ ifWord, afterIf, notWord, afterNot, existsWord, afterExists }, ?_⟩
  simp only [Guard.text, List.append_assoc]

theorem Guard.append_inj {g k : Guard} (hs : ∀ c ∈ s.head?, isBlank c = false)
    (ht : ∀ c ∈ t.head?, isBlank c = false) (h : g.text ++ s = k.text ++ t) : g = k ∧ s = t := by
  obtain ⟨ifWord, afterIf, notWord, afterNot, existsWord, afterExists⟩ := g
  obtain ⟨ifWord', afterIf', notWord', afterNot', existsWord', afterExists'⟩ := k
  simp only [Guard.text, List.append_assoc] at h
  obtain ⟨rfl, h₁⟩ := Spelling.append_inj (by decide) (afterIf.head _) (afterIf'.head _) h
  obtain ⟨rfl, h₂⟩ := BlankRun.append_inj (notWord.head_not_blank (by decide) (by decide) _)
    (notWord'.head_not_blank (by decide) (by decide) _) h₁
  obtain ⟨rfl, h₃⟩ := Spelling.append_inj (by decide) (afterNot.head _) (afterNot'.head _) h₂
  obtain ⟨rfl, h₄⟩ := BlankRun.append_inj (existsWord.head_not_blank (by decide) (by decide) _)
    (existsWord'.head_not_blank (by decide) (by decide) _) h₃
  obtain ⟨rfl, h₅⟩ := Spelling.append_inj (by decide) (afterExists.head _) (afterExists'.head _) h₄
  obtain ⟨rfl, h₆⟩ := BlankRun.append_inj hs ht h₅
  exact ⟨rfl, h₆⟩

namespace Heading

theorem exists_of_afterCreateTable? (h : afterCreateTable? s = some rest) :
    ∃ (lead : Text) (create : Spelling "CREATE") (afterCreate : BlankRun)
      (table : Spelling "TABLE"), lead.all isBlank = true ∧
      s = lead ++ (create.1 ++ (afterCreate.1 ++ (table.1 ++ rest))) := by
  simp only [afterCreateTable?, Option.bind_eq_bind, Option.bind_eq_some_iff] at h
  obtain ⟨r₁, h₁, r₂, h₂, h₃⟩ := h
  obtain ⟨create, hcreate⟩ := Spelling.exists_of_afterKeyword? h₁
  obtain ⟨afterCreate, rfl⟩ := BlankRun.exists_of_afterBlanks? h₂
  obtain ⟨table, rfl⟩ := Spelling.exists_of_afterKeyword? h₃
  refine ⟨s.takeWhile isBlank, create, afterCreate, table, List.all_takeWhile, ?_⟩
  rw [← hcreate, skipBlanks, List.takeWhile_append_dropWhile]

/-- A header is read off a heading, with blanks in front of it or not, and a name. -/
theorem exists_of_header? {flag : Bool} {name : Text}
    (h : Outline.header? s = some (flag, name, rest)) :
    ∃ (lead : Text) (heading : Heading), lead.all isBlank = true ∧
      heading.guard.isSome = flag ∧ IsName name ∧
      s = lead ++ (heading.text ++ (name ++ rest)) := by
  simp only [Outline.header?, Option.bind_eq_bind, Option.bind_eq_some_iff] at h
  obtain ⟨r₁, h₁, r₂, h₂, h⟩ := h
  obtain ⟨lead, create, afterCreate, table, hlead, rfl⟩ := exists_of_afterCreateTable? h₁
  obtain ⟨afterTable, rfl⟩ := BlankRun.exists_of_afterBlanks? h₂
  cases hguard : Outline.afterIfNotExists? r₂ with
  | none =>
    rw [hguard] at h
    obtain ⟨_, hname, he⟩ := Option.map_eq_some_iff.mp h
    obtain ⟨rfl, rfl⟩ := Prod.mk.inj he
    refine ⟨lead, { create, afterCreate, table, afterTable, guard := none }, hlead, rfl,
      isName_of_leadingName? hname, ?_⟩
    rw [append_of_leadingName? hname]
    simp [text]
  | some r₃ =>
    rw [hguard] at h
    obtain ⟨_, hname, he⟩ := Option.map_eq_some_iff.mp h
    obtain ⟨rfl, rfl⟩ := Prod.mk.inj he
    obtain ⟨guard, rfl⟩ := Guard.exists_of_afterIfNotExists? hguard
    refine ⟨lead, { create, afterCreate, table, afterTable, guard := some guard }, hlead, rfl,
      isName_of_leadingName? hname, ?_⟩
    rw [append_of_leadingName? hname]
    simp [text]

/-- Headings in front of texts that cannot go on with `IF NOT EXISTS`. -/
theorem append_inj {h k : Heading} (hs : ∀ c ∈ s.head?, isBlank c = false)
    (ht : ∀ c ∈ t.head?, isBlank c = false) (hs' : Outline.afterIfNotExists? s = none)
    (ht' : Outline.afterIfNotExists? t = none) (he : h.text ++ s = k.text ++ t) :
    h = k ∧ s = t := by
  have front {guard : Option Guard} {u : Text} (hu : ∀ c ∈ u.head?, isBlank c = false) :
      ∀ c ∈ (guard.elim [] Guard.text ++ u).head?, isBlank c = false := by
    cases guard with
    | none => exact hu
    | some g =>
      simp only [Option.elim_some, Guard.text, List.append_assoc]
      exact g.ifWord.head_not_blank (by decide) (by decide) _
  obtain ⟨create, afterCreate, table, afterTable, guard⟩ := h
  obtain ⟨create', afterCreate', table', afterTable', guard'⟩ := k
  simp only [text, List.append_assoc] at he
  obtain ⟨rfl, h₁⟩ := Spelling.append_inj (by decide) (afterCreate.head _) (afterCreate'.head _) he
  obtain ⟨rfl, h₂⟩ := BlankRun.append_inj (table.head_not_blank (by decide) (by decide) _)
    (table'.head_not_blank (by decide) (by decide) _) h₁
  obtain ⟨rfl, h₃⟩ := Spelling.append_inj (by decide) (afterTable.head _) (afterTable'.head _) h₂
  obtain ⟨rfl, h₄⟩ := BlankRun.append_inj (front hs) (front ht) h₃
  -- A guard on one side only would be read off the text on the other side.
  cases guard with
  | none =>
    cases guard' with
    | none => exact ⟨rfl, h₄⟩
    | some g =>
      obtain rfl : s = g.text ++ t := h₄
      rw [g.afterIfNotExists?_text ht] at hs'
      contradiction
  | some g =>
    cases guard' with
    | none =>
      obtain rfl : g.text ++ s = t := h₄
      rw [g.afterIfNotExists?_text hs] at ht'
      contradiction
    | some g' =>
      obtain ⟨rfl, rest⟩ := Guard.append_inj hs ht h₄
      exact ⟨rfl, rest⟩

end Heading
end Headings

/-! ## Outlines -/

namespace Outline

/-- All that the text of an outline is written with. -/
structure Writing where
  lead : Text
  lead_blank : lead.all isBlank = true
  heading : Heading
  name : Text
  isName : IsName name
  space : SpaceRun
  body : Text
  balanced : Balanced body
  tail : Text

namespace Writing

def text (w : Writing) : Text :=
  w.lead ++ (w.heading.text ++ (w.name ++ (w.space.1 ++ '(' :: (w.body ++ ')' :: w.tail))))

def outline (w : Writing) : Outline :=
  { name := w.name, ifNotExists := w.heading.guard.isSome, body := w.body }

theorem skipBlanks_text (w : Writing) : skipBlanks w.text =
    w.heading.text ++ (w.name ++ (w.space.1 ++ '(' :: (w.body ++ ')' :: w.tail))) :=
  skipBlanks_append (List.all_eq_true.mp w.lead_blank)
    fun c hc => isBlank_of_isSpace (w.heading.head?_text _ c hc)

theorem trimStart_list (space : SpaceRun) (s : Text) :
    trimStart (space.1 ++ '(' :: s) = '(' :: s :=
  trimStart_append space.all (by simp; decide)

theorem ofText?_text (w : Writing) : ofText? w.text = some w.outline := by
  have skipped (s : Text) : header? s = header? (skipBlanks s) := by
    have again : skipBlanks (skipBlanks s) = skipBlanks s :=
      skipBlanks_eq_self head?_dropWhile_eq_false
    rw [header?, header?, afterCreateTable?, afterCreateTable?, again]
  rw [ofText?, skipped, w.skipBlanks_text, w.heading.header?_text w.isName]
  simp [trimStart_list, group?_of_balanced w.balanced, outline]

theorem exists_of_ofText? {s : Text} {o : Outline} (h : ofText? s = some o) :
    ∃ w : Writing, w.text = s ∧ w.outline = o := by
  simp only [ofText?, Option.bind_eq_bind, Option.bind_eq_some_iff] at h
  obtain ⟨⟨flag, name, rest⟩, hheader, ⟨body, tail⟩, hgroup, ho⟩ := h
  obtain ⟨lead, heading, lead_blank, rfl, isName, rfl⟩ := Heading.exists_of_header? hheader
  obtain ⟨hlist, balanced⟩ := balanced_of_group? hgroup
  let space : SpaceRun := ⟨rest.takeWhile isSpace, List.all_takeWhile⟩
  refine ⟨{ lead, lead_blank, heading, name, isName, space, body, balanced, tail }, ?_,
    Option.some.inj ho⟩
  have hrest : space.1 ++ '(' :: (body ++ ')' :: tail) = rest := by
    rw [← hlist]
    exact List.takeWhile_append_dropWhile
  simp only [text, hrest]

theorem text_injective : Function.Injective text := by
  intro v w h
  obtain ⟨lead, lead_blank, heading, name, isName, space, body, balanced, tail⟩ := v
  obtain ⟨lead', lead_blank', heading', name', isName', space', body', balanced', tail'⟩ := w
  obtain ⟨rfl, h₁⟩ := append_inj_of_run (List.all_eq_true.mp lead_blank)
    (List.all_eq_true.mp lead_blank')
    (fun c hc => isBlank_of_isSpace (heading.head?_text _ c hc))
    (fun c hc => isBlank_of_isSpace (heading'.head?_text _ c hc)) h
  obtain ⟨rfl, h₂⟩ := Heading.append_inj
    (fun c hc => isBlank_of_isSpace (isName.head?_append _ c hc))
    (fun c hc => isBlank_of_isSpace (isName'.head?_append _ c hc))
    (Heading.afterIfNotExists?_name isName space _)
    (Heading.afterIfNotExists?_name isName' space' _) h₁
  have names := congrArg leadingName? h₂
  rw [Heading.leadingName?_name isName, Heading.leadingName?_name isName'] at names
  obtain ⟨rfl, h₃⟩ := Prod.mk.inj (Option.some.inj names)
  obtain ⟨hspace, h₄⟩ := append_inj_of_run space.all space'.all (by simp; decide)
    (by simp; decide) h₃
  obtain rfl : space = space' := Subtype.ext hspace
  have groups := congrArg group? h₄
  rw [group?_of_balanced balanced, group?_of_balanced balanced'] at groups
  obtain ⟨rfl, rfl⟩ := Prod.mk.inj (Option.some.inj groups)
  rfl

end Writing

/-- A text is read as an outline exactly when it is written as one.  It is written in one
way only, and what stands behind the column list does not count. -/
theorem ofText?_eq_some_iff_written :
    (∀ (s : Text) (o : Outline), ofText? s = some o ↔ ∃ w : Writing, w.text = s ∧ w.outline = o) ∧
      Function.Injective Writing.text ∧
      ∀ (w : Writing) (tail : Text), ofText? { w with tail }.text = ofText? w.text := by
  refine ⟨fun s o => ⟨Writing.exists_of_ofText?, ?_⟩, Writing.text_injective, fun w tail => ?_⟩
  · rintro ⟨w, rfl, rfl⟩
    exact w.ofText?_text
  · rw [Writing.ofText?_text, Writing.ofText?_text]
    rfl

/-- A table called `IF`, which the guard is no part of. -/
example : ofText? "create table IF (not exists)" = some ⟨"IF", false, "not exists"⟩ := by
  decide

end Outline
end Dialect
