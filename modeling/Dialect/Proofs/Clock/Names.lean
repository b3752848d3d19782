import Dialect.Proofs.Clock.Group
import Dialect.Proofs.Clock.Locality

/-!
# Names among clock calls

Clock calls are looked for among the words of a text, and a name may hold several words.
A dot ends a word, so each part of a dotted name is a word of its own, and brackets are no
quotes, so a bracketed name is read like any other text.  What such a name holds is
replaced wherever the same words would be replaced outside a name.  Names in other quotes
stay as they are.
-/

namespace Dialect
namespace Clock

open Reading

/-- A name between two texts, outside quoted runs.  A bare name is as long as it can be. -/
structure Occurrence (a name b : Text) : Prop where
  isName : IsName name
  outside : (start.run a).quote = none
  maximal : (∀ c ∈ name, continuesName c = true) →
    (∀ c ∈ a.getLast?, continuesName c = false) ∧ ∀ c ∈ b.head?, continuesName c = false

/-- The parts of a bare name between its dots. -/
def parts (name : Text) : List Text := name.splitOnP (· = '.')

/-- The names that hold no clock call when `b` comes behind them. -/
inductive Spared (b : Text) : Text → Prop where
  | quoted {q : Char} {inside : Text} :
    isQuote q = true → q ∉ inside → Spared b (q :: inside ++ [q])
  | bracketed {inside : Text} :
    ']' ∉ inside → GroupFree (Lexeme.ofText inside) → Spared b ('[' :: inside ++ [']'])
  /-- Only the last part can be called with the parentheses behind the name. -/
  | bare {name : Text} :
    (∀ c ∈ name, continuesName c = true) →
    (∀ w ∈ parts name, upper w ≠ "CURRENT_DATE" ∧ upper w ≠ "CURRENT_TIME") →
    (∀ w ∈ (parts name).getLast?, upper w = "NOW" → afterEmptyParentheses? b = none) →
    Spared b name

/-! ## Words -/

section Words

variable {w s t b : Text}

theorem substitute?_eq_none_iff : substitute? w s = none ↔
    (upper w ≠ "CURRENT_DATE" ∧ upper w ≠ "CURRENT_TIME") ∧
      (upper w = "NOW" → afterEmptyParentheses? s = none) := by
  by_cases now : upper w = "NOW"
  · have apart : upper w ≠ "CURRENT_DATE" ∧ upper w ≠ "CURRENT_TIME" := by
      rw [now]
      decide
    rw [substitute?_eq_bind, instant?, if_pos now, Option.bind_some, if_pos now,
      and_iff_right apart, forall_prop_of_true now]
    cases afterEmptyParentheses? s with
    | none => exact iff_of_true rfl rfl
    | some rest => exact iff_of_false (Option.some_ne_none _) (Option.some_ne_none _)
  · have called {expression : Text} (h : instant? w = some expression) :
        substitute? w s ≠ none := by
      rw [substitute?_eq_bind, h, Option.bind_some, if_neg now]
      cases afterEmptyParentheses? s with
      | none => exact Option.some_ne_none _
      | some rest => exact Option.some_ne_none _
    rw [and_iff_left fun h => absurd h now]
    by_cases date : upper w = "CURRENT_DATE"
    · have names : instant? w = some "date('now')".toList := by
        rw [instant?, if_neg now, if_pos date]
      exact iff_of_false (called names) fun h => h.1 date
    · by_cases time : upper w = "CURRENT_TIME"
      · have names : instant? w = some "time('now')".toList := by
          rw [instant?, if_neg now, if_neg date, if_pos time]
        exact iff_of_false (called names) fun h => h.2 time
      · refine iff_of_true ?_ ⟨date, time⟩
        rw [substitute?_eq_bind, instant?, if_neg now, if_neg date, if_neg time, Option.bind_none]

/-- A replacement begins with another letter than the word of its call. -/
theorem not_prefix_of_substitute? {text rest : Text} (h : substitute? w s = some (text, rest))
    (t u : Text) : ¬ w ++ t <+: text ++ u := by
  obtain ⟨call, hcall, hword, rfl, _⟩ := exists_call_of_substitute? h
  have letters : ∀ call ∈ calls, call.word.toList ≠ [] ∧ (call.replacement : Text) ≠ [] ∧
      call.word.toList.head? ≠ (upper call.replacement).head? := by decide
  obtain ⟨hne, hne', hhead⟩ := letters call hcall
  rintro ⟨x, hx⟩
  obtain ⟨c, v, rfl⟩ : ∃ c v, w = c :: v := by
    refine List.exists_cons_of_ne_nil ?_
    rintro rfl
    exact hne hword
  obtain ⟨d, v', hd⟩ := List.exists_cons_of_ne_nil hne'
  rw [hd] at hx hhead
  rw [hword] at hhead
  obtain ⟨rfl, _⟩ := List.cons.inj hx
  exact hhead rfl

/-- A word stays when it is no call, and only then. -/
theorem word_survives_iff (hw : ∀ c ∈ w, continuesWord c = true)
    (hs : ∀ c ∈ s.head?, continuesWord c = false) :
    w ++ t <+: adapt (w ++ s) ↔ substitute? w s = none ∧ t <+: adapt s := by
  cases h : substitute? w s with
  | none => rw [adapt_word hw hs h, List.prefix_append_right_inj, and_iff_right rfl]
  | some cut =>
    obtain ⟨text, rest⟩ := cut
    have call : substitute? (leadingWord (w ++ s)) (afterWord (w ++ s)) = some (text, rest) := by
      rw [leadingWord_append hw hs, afterWord_append hw hs, h]
    rw [adapt_of_substitute? call]
    exact iff_of_false (not_prefix_of_substitute? h t _) (by simp)

end Words

/-! ## Parts -/

section Parts

variable {w : Text}

theorem parts_of_not_mem (h : '.' ∉ w) : parts w = [w] :=
  List.splitOnP_eq_singleton fun _ hc => decide_eq_false fun e => h (e ▸ hc)

theorem parts_append_dot (h : '.' ∉ w) (name : Text) :
    parts (w ++ '.' :: name) = w :: parts name := by
  have first := parts_of_not_mem h
  rw [parts] at first
  rw [parts, List.splitOnP_append_cons w name (by decide), first]
  rfl

theorem getLast?_cons_parts (w name : Text) :
    (w :: parts name).getLast? = (parts name).getLast? := by
  obtain ⟨v, ps, h⟩ := List.exists_cons_of_ne_nil (List.splitOnP_ne_nil (· = '.') name)
  rw [parts, h, List.getLast?_cons_cons]

/-- A name is one part, or a part and a dot and a shorter name. -/
theorem parts_induction {P : Text → Prop} (last : ∀ w, '.' ∉ w → P w)
    (dot : ∀ w name, '.' ∉ w → P name → P (w ++ '.' :: name)) (name : Text) : P name := by
  by_cases h : '.' ∈ name
  · obtain ⟨w, rest, hs, hw⟩ := List.eq_append_cons_of_mem h
    rw [hs]
    exact dot w rest hw (parts_induction last dot rest)
  · exact last name h
termination_by name.length
decreasing_by simp [hs]; omega

end Parts

/-! ## Names of each kind -/

section Kinds

variable {q : Char} {name inside b : Text}

theorem quoted_survives (hq : isQuote q = true) (h : q ∉ inside) (b : Text) :
    q :: inside ++ [q] <+: adapt (q :: inside ++ [q] ++ b) := by
  have joined : q :: inside ++ [q] ++ b = q :: (inside ++ q :: b) := by simp
  rw [joined, adapt_closed hq h]
  exact ⟨adapt b, by simp⟩

theorem bare_survives_iff (hname : ∀ c ∈ name, continuesName c = true)
    (hb : ∀ c ∈ b.head?, continuesName c = false) :
    name <+: adapt (name ++ b) ↔
      (∀ w ∈ parts name, upper w ≠ "CURRENT_DATE" ∧ upper w ≠ "CURRENT_TIME") ∧
        ∀ w ∈ (parts name).getLast?, upper w = "NOW" → afterEmptyParentheses? b = none := by
  have word {w : Text} (hw : ∀ c ∈ w, continuesName c = true) (hdot : '.' ∉ w) :
      ∀ c ∈ w, continuesWord c = true := by
    intro c hc
    have hc' := hw c hc
    simp only [continuesName, Bool.or_eq_true, decide_eq_true_eq] at hc'
    exact hc'.resolve_right fun e => hdot (e ▸ hc)
  have hend : ∀ c ∈ b.head?, continuesWord c = false := by
    intro c hc
    have hc' := hb c hc
    simp only [continuesName, Bool.or_eq_false_iff] at hc'
    exact hc'.1
  induction name using parts_induction with
  | last w hdot =>
    have survives := word_survives_iff (t := []) (word hname hdot) hend
    rw [List.append_nil] at survives
    rw [survives, substitute?_eq_none_iff, parts_of_not_mem hdot, List.getLast?_singleton]
    simp
  | dot w rest hdot ih =>
    have hrest : rest <+: adapt (rest ++ b) ↔ _ :=
      ih fun c hc => hname c (List.mem_append_right _ (List.mem_cons_of_mem '.' hc))
    have hfirst := word (fun c hc => hname c (List.mem_append_left _ hc)) hdot
    have nocall : afterEmptyParentheses? ('.' :: (rest ++ b)) = none := rfl
    rw [List.append_assoc, List.cons_append, word_survives_iff hfirst (by simp; decide),
      adapt_cons (by decide) (by decide), List.cons_prefix_cons, and_iff_right rfl, hrest,
      substitute?_eq_none_iff, and_iff_left fun _ => nocall, parts_append_dot hdot,
      List.forall_mem_cons, getLast?_cons_parts]
    exact and_assoc.symm

theorem not_mem_adapt {c : Char} {s : Text} (hc : ∀ call ∈ calls, c ∉ (call.replacement : Text))
    (h : c ∉ s) : c ∉ adapt s := by
  fun_induction adapt s with
  | case1 => exact h
  | case2 d s hq ih =>
    rw [← quotedRun_append d s, ← List.cons_append, List.mem_append, not_or] at h
    rw [List.mem_append, not_or]
    exact ⟨h.1, ih h.2⟩
  | case3 d s hq hw text rest hcall ih =>
    obtain ⟨call, hmem, _, rfl, _⟩ := exists_call_of_substitute? hcall
    have hrest : rest <:+ d :: s := (suffix_of_substitute? hcall).trans (List.dropWhile_suffix _)
    rw [List.mem_append, not_or]
    exact ⟨hc call hmem, ih fun hm => h (hrest.subset hm)⟩
  | case4 d s hq hw hcall ih =>
    rw [← leadingWord_append_afterWord (d :: s), List.mem_append, not_or] at h
    rw [List.mem_append, not_or]
    exact ⟨h.1, ih h.2⟩
  | case5 d s hq hw ih =>
    rw [List.mem_cons, not_or] at h ⊢
    exact ⟨h.1, ih h.2⟩

theorem exists_adaptIn_cons {c : Char} (hq : isQuote c = false) (hw : continuesWord c = false)
    (quote : Option Char) (s : Text) : ∃ t, adaptIn quote (c :: s) = c :: t := by
  cases quote with
  | none => exact ⟨adapt s, adapt_cons hq hw s⟩
  | some q =>
    by_cases hc : c = q
    · subst hc
      have nothing : c ∉ ([] : Text) := List.not_mem_nil
      have closed : quotedRun c (c :: s) = ([c], s) := quotedRun_closed nothing s
      exact ⟨adapt s, by rw [adaptIn, closed]; rfl⟩
    · have run : quotedRun q (c :: s) = (c :: (quotedRun q s).1, (quotedRun q s).2) :=
        quotedRun_append_of_not_mem (s := [c]) (by simpa using Ne.symm hc) s
      exact ⟨_, by rw [adaptIn, run]; rfl⟩

/-- No call goes on over the closing bracket, so a bracketed name is read like a text of its
own. -/
theorem bracketed_survives_iff (h : ']' ∉ inside) (b : Text) :
    '[' :: inside ++ [']'] <+: adapt ('[' :: inside ++ [']'] ++ b) ↔
      GroupFree (Lexeme.ofText inside) := by
  have cut : Cut inside (']' :: b) :=
    ⟨Or.inr (by simp; decide), by simp; decide⟩
  have hadapt : ']' ∉ adapt inside := not_mem_adapt (by decide) h
  obtain ⟨t, ht⟩ :=
    exists_adaptIn_cons (c := ']') (by decide) (by decide) (inside.foldl nextQuote none) b
  have joined : '[' :: inside ++ [']'] ++ b = '[' :: (inside ++ ']' :: b) := by simp
  rw [joined, adapt_cons (by decide) (by decide), adapt_append cut, ht, List.cons_append,
    List.cons_prefix_cons, and_iff_right rfl, ← adapt_eq_self_iff]
  constructor
  · rintro ⟨u, hu⟩
    have same := congrArg (List.takeWhile (· ≠ ']')) hu
    rw [List.append_assoc, List.singleton_append, takeWhile_ne h, takeWhile_ne hadapt] at same
    exact same.symm
  · intro same
    rw [same]
    exact ⟨t, by simp⟩

end Kinds

/-! ## Names in a text -/

section Places

variable {a name b : Text}

theorem head_of_isName (h : IsName name) (b : Text) :
    ∀ c ∈ (name ++ b).head?, isBlank c = false ∧ c ≠ '(' ∧ c ≠ ')' := by
  cases h with
  | @enclosed opener closer inside ho hn =>
    have front : ∀ p ∈ enclosers, isBlank p.1 = false ∧ p.1 ≠ '(' ∧ p.1 ≠ ')' := by decide
    simpa using front _ ho
  | bare hne hall =>
    refine head?_append_of_forall hne (fun c hc => ?_) b
    have plain := isPlain_of_continuesName (hall c hc)
    simp only [isPlain, Bool.and_eq_true, decide_eq_true_eq] at plain
    exact ⟨isBlank_of_isSpace (isSpace_of_continuesName (hall c hc)), plain.1.1.2, plain.1.2⟩

/-- What comes in front of a name does not change how the name is read. -/
theorem Occurrence.survives_iff (h : Occurrence a name b) :
    adapt a ++ name <+: adapt (a ++ (name ++ b)) ↔ name <+: adapt (name ++ b) := by
  have cut : Cut a (name ++ b) := by
    constructor
    · cases h.isName with
      | enclosed ho hn =>
        exact Or.inr (by simpa using not_continuesWord_of_encloser ho)
      | bare _ hall =>
        refine Or.inl fun c hc => ?_
        have last := (h.maximal hall).1 c hc
        simp only [continuesName, Bool.or_eq_false_iff] at last
        exact last.1
    · exact head_of_isName h.isName b
  have outside : a.foldl nextQuote none = none := (quote_run start a).symm.trans h.outside
  rw [adapt_append cut, outside, adaptIn, List.prefix_append_right_inj]

/-- A name in a text stays in its place when it holds no clock call, and only then. -/
theorem name_survives_iff (h : Occurrence a name b) :
    adapt a ++ name <+: adapt (a ++ (name ++ b)) ↔ Spared b name := by
  rw [h.survives_iff]
  constructor
  · intro kept
    cases h.isName with
    | @enclosed opener closer inside ho hn =>
      simp only [enclosers, List.mem_cons, Prod.mk.injEq, List.not_mem_nil, or_false] at ho
      rcases ho with ⟨rfl, rfl⟩ | ⟨rfl, rfl⟩ | ⟨rfl, rfl⟩
      · exact .quoted (by decide) hn
      · exact .quoted (by decide) hn
      · exact .bracketed hn ((bracketed_survives_iff hn b).mp kept)
    | bare _ hall =>
      obtain ⟨hparts, hlast⟩ := (bare_survives_iff hall (h.maximal hall).2).mp kept
      exact .bare hall hparts hlast
  · intro spared
    cases spared with
    | quoted hq hn => exact quoted_survives hq hn b
    | bracketed hn free => exact (bracketed_survives_iff hn b).mpr free
    | bare hall hparts hlast =>
      exact (bare_survives_iff hall (h.maximal hall).2).mpr ⟨hparts, hlast⟩

/-- Nothing is called behind the last part. -/
theorem name_survives_now :
    Occurrence "select " "t.now" ", now() from t" ∧
      adapt "select " ++ "t.now".toList <+:
        adapt ("select ".toList ++ ("t.now".toList ++ ", now() from t".toList)) := by
  have word : ∀ c ∈ "t.now".toList, continuesName c = true := List.all_eq_true.mp (by decide)
  have occurrence : Occurrence "select " "t.now" ", now() from t" :=
    ⟨.bare (by decide) word, by decide, fun _ => ⟨by rintro c ⟨⟩; decide, by rintro c ⟨⟩; decide⟩⟩
  exact ⟨occurrence, (name_survives_iff occurrence).mpr (.bare word (by decide) (by decide))⟩

/-- Neither a dotted nor a bracketed name is safe in a statement of kind `other`. -/
theorem names_lost_to_current_date :
    (¬ ∀ a name b, Kind.ofText (a ++ (name ++ b)) = .other → Occurrence a name b →
      (∀ c ∈ name, continuesName c = true) → '.' ∈ name →
      adapt a ++ name <+: adapt (a ++ (name ++ b))) ∧
    ¬ ∀ a inside b, Kind.ofText (a ++ ('[' :: inside ++ [']'] ++ b)) = .other →
      Occurrence a ('[' :: inside ++ [']']) b →
      adapt a ++ ('[' :: inside ++ [']']) <+: adapt (a ++ ('[' :: inside ++ [']'] ++ b)) := by
  constructor
  · intro h
    have word : ∀ c ∈ "t.current_date".toList, continuesName c = true :=
      List.all_eq_true.mp (by decide)
    have kept := h "SELECT " "t.current_date" ", [CURRENT_DATE] FROM t" (by decide +kernel)
      ⟨.bare (by decide) word, by decide,
        fun _ => ⟨by rintro c ⟨⟩; decide, by rintro c ⟨⟩; decide⟩⟩ word (by decide)
    exact absurd kept (by decide +kernel)
  · intro h
    have kept := h "SELECT t.current_date, " "CURRENT_DATE" " FROM t" (by decide +kernel)
      ⟨.enclosed (by decide) (by decide), by decide +kernel,
        fun all => absurd (all '[' (by decide)) (by decide)⟩
    exact absurd kept (by decide +kernel)

end Places
end Clock
end Dialect
