import Dialect.Proofs.Emptiness
import Dialect.Route

/-!
# Routes of compiled statements

The route is chosen on compiled text.  A table declaration and an insertion keep the word
that makes them one, and replacing clock calls writes over no word that begins a statement
with rows and writes no such word.  So compiling does not change the route, and the first
word of a statement decides before anything is compiled whether a session fetches rows or
counts them.
-/

namespace Dialect

namespace Route

/-- The route of a statement with the given first word. -/
def ofWord (word : Text) : Route :=
  if rowWords.any fun w => w.toList = upper word then rows else affected

section FirstWords

variable {s : Text}

theorem ofSql_of_trimmed (h : ∀ c ∈ s.head?, isSpace c = false) :
    ofSql s = ofWord (leadingWord s) := by
  have start : trimStart s = s := trimStart_append (a := []) (by simp) h
  rw [ofSql, start, ofWord]

/-- Replacing clock calls neither takes a row word away from the front nor puts one
there. -/
theorem leadingWord_adapt_eq_iff {w : String} (h : w ∈ rowWords) :
    w.toList = upper (leadingWord (Clock.adapt s)) ↔ w.toList = upper (leadingWord s) := by
  have apart : ∀ w ∈ rowWords, w.toList ≠ [] ∧
      (∀ call ∈ Clock.calls, call.word.toList ≠ w.toList) ∧
      w.toList ∉ [("DATETIME" : Text), "DATE", "TIME"] := by decide
  obtain ⟨hne, hcall, hname⟩ := apart w h
  rw [eq_comm, eq_comm (a := w.toList), ← isSome_afterKeyword?_iff, ← isSome_afterKeyword?_iff,
    Clock.afterKeyword?_adapt hne hcall hname, Option.isSome_map]

theorem ofWord_adapt (s : Text) :
    ofWord (leadingWord (Clock.adapt s)) = ofWord (leadingWord s) := by
  have same : rowWords.any (fun w => w.toList = upper (leadingWord (Clock.adapt s))) =
      rowWords.any (fun w => w.toList = upper (leadingWord s)) := by
    rw [Bool.eq_iff_iff, List.any_eq_true, List.any_eq_true]
    refine exists_congr fun w => and_congr_right fun hw => ?_
    rw [decide_eq_true_eq, decide_eq_true_eq, leadingWord_adapt_eq_iff hw]
  rw [ofWord, same, ofWord]

end FirstWords

/-- A table declaration begins with `CREATE` and an insertion with `INSERT`. -/
theorem ofWord_of_kind {s : Text} (hs : ∀ c ∈ s.head?, isSpace c = false)
    (hk : Kind.ofText s ≠ .other) : ofWord (leadingWord s) = affected := by
  have skip : skipBlanks s = s := skipBlanks_eq_self fun c hc => isBlank_of_isSpace (hs c hc)
  unfold Kind.ofText at hk
  rw [skip] at hk
  split at hk
  · next hcreate =>
    obtain ⟨rest, hrest⟩ := Option.isSome_iff_exists.mp hcreate
    simp only [afterCreateTable?, skip, Option.bind_eq_bind, Option.bind_eq_some_iff] at hrest
    obtain ⟨afterCreate, hword, _⟩ := hrest
    rw [ofWord, (afterKeyword?_eq_some_iff.mp hword).1]
    decide
  · split at hk
    · next hinsert =>
      rw [ofWord, isSome_afterKeyword?_iff.mp hinsert]
      decide
    · contradiction

end Route

/-- Compiling keeps the route of a statement.  Only a statement of kind `other` can produce
rows, and whether it does is known from the first word of its text, unless the text is
empty.  A session runs what is compiled on this route. -/
theorem route_of_compilation (raw : Text) :
    Route.ofSql (compile raw) = Route.ofSql (Statement.ofText raw).text ∧
      ((Statement.ofText raw).kind ≠ .other → Route.ofSql (compile raw) = .affected) ∧
      (Route.ofText raw =
        if (Statement.ofText raw).text = [] then .error .emptyStatement
        else .ok (.ofWord (leadingWord (Statement.ofText raw).text))) ∧
      ((Statement.ofText raw).text ≠ [] → ∀ (executor : Executor) (db : executor.Connection),
        Session.execute executor db raw =
          (Session.run executor db (compile raw)
            (.ofWord (leadingWord (Statement.ofText raw).text))).map id
              (·.mapError .execution)) := by
  have text := (Statement.normal_text_ofText raw).trimmed.head
  have sql := (normal_compile raw).trimmed.head
  have kind : Kind.ofText (compile raw) = (Statement.ofText raw).kind :=
    Statement.kind_adapt (Statement.kind_ofText raw)
  have affected (h : (Statement.ofText raw).kind ≠ .other) :
      Route.ofSql (compile raw) = .affected := by
    rw [Route.ofSql_of_trimmed sql, Route.ofWord_of_kind sql (kind ▸ h)]
  have same : Route.ofSql (compile raw) =
      Route.ofWord (leadingWord (Statement.ofText raw).text) := by
    by_cases h : (Statement.ofText raw).kind = .other
    · have adapted : compile raw = Clock.adapt (Statement.ofText raw).text := by
        show (Statement.ofText raw).adapt.1 = _
        simp only [Statement.adapt, h]
      rw [Route.ofSql_of_trimmed sql, adapted, Route.ofWord_adapt]
    · rw [affected h, Route.ofWord_of_kind text h]
  refine ⟨by rw [same, Route.ofSql_of_trimmed text], affected, ?_, fun h executor db => ?_⟩
  · split
    · next h => simp only [Route.ofText, ofNonemptyText_of_nil h, Except.map]
    · next h =>
      rw [← same, Route.ofText, ofNonemptyText_of_ne_nil h]
      rfl
  · rw [Session.execute_of_ne_nil executor db h, same]

/-- The rows of the query go into the table. -/
theorem route_of_compilation_insert :
    (Statement.ofText "insert into t select now()").kind ≠ .other ∧
      Route.ofSql (compile "insert into t select now()") = .affected ∧
      Session.execute .scratch [] "insert into t select now()" =
        (Session.run .scratch [] (compile "insert into t select now()") .affected).map id
          (·.mapError .execution) := by
  have kind : (Statement.ofText "insert into t select now()").kind ≠ .other := by
    decide +kernel
  have text : (Statement.ofText "insert into t select now()").text ≠ [] := by
    decide +kernel
  have word : Route.ofWord (leadingWord (Statement.ofText "insert into t select now()").text) =
      .affected := by
    decide +kernel
  obtain ⟨_, affected, _, executed⟩ := route_of_compilation "insert into t select now()"
  exact ⟨kind, affected kind, word ▸ executed text .scratch []⟩

end Dialect
