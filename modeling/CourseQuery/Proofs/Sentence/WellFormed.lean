import CourseQuery.Proofs.Sentence.Blame

/-!
# Well-formed clauses

The clauses of a sentence have their places, and the grammar says of each whether it is well formed
in a text: it stands where it should, or the text ends behind it with only its full stop missing.
A clause is the first violated one if it is not well formed and all before it are. In tokens the
same is said with what the readers of the clauses give.
-/

set_option autoImplicit false

namespace CourseQuery

/-- The place of a clause in a sentence. -/
def Clause.place : Clause → Nat
  | .dataset => 0
  | .filter => 1
  | .display => 2
  | .order => 3
  | .terminator => 4

namespace Sentence

open Text.Utf8 (size)

/-! ## Clauses in a text -/

/-- The dataset clause. -/
def DatasetLexemes (ls : List (List Char)) : Prop :=
  ∃ id, DatasetId.Valid id ∧ ls = wordsOf "In courses dataset" ++ [id.toList ++ [',']]

/-- The filter clause. -/
def FilterLexemes (ls : List (List Char)) : Prop :=
  ∃ f, Finds f ls

/-- The display clause with the mark that ends it. -/
def DisplayLexemes (fields : List Field) (mark : Char) (ls : List (List Char)) : Prop :=
  ∃ shows, ShownFields mark fields shows ∧ ls = wordsOf "show" ++ shows

/-- The order clause with its full stop. -/
def OrderLexemes (f : Field) (ls : List (List Char)) : Prop :=
  ls = wordsOf "sort in ascending order by" ++ [f.name.toList ++ ['.']]

/-- A clause stands at the front of a text. -/
def Stands (clause : List (List Char) → Prop) (s rest : List Char) : Prop :=
  ∃ ls, clause ls ∧ Takes ls s rest

/-- A text ends behind a clause without the full stop, and lacks the given lexemes before the last
one. -/
def CutShort (missing : List (List Char)) (clause : List (List Char) → Prop) (s : List Char) :
    Prop :=
  ∃ front last, clause (front ++ (missing ++ [last ++ ['.']])) ∧ LaidOut (front ++ [last]) s

/-- Of what follows the dataset clause and the filter clause of a sentence this holds. -/
def AfterFilter (source : String) (p : List Char → Prop) : Prop :=
  ∃ s₁ s₂, Stands DatasetLexemes source.toList s₁ ∧ Stands FilterLexemes s₁ s₂ ∧ p s₂

/-- The display clause is well formed, with one of its marks or at the end of the text. -/
def DisplayStands (s : List Char) : Prop :=
  (∃ fields, CutShort [] (DisplayLexemes fields '.') s) ∨
    ∃ fields order rest, Stands (DisplayLexemes fields (endMark order)) s rest

/-- The order clause is well formed by itself, with its full stop or at the end of the text. -/
def SortStands (f : Field) (s : List Char) : Prop :=
  CutShort [] (OrderLexemes f) s ∨ ∃ rest, Stands (OrderLexemes f) s rest

/-- The display clause is well formed, and so is the order clause, if it is begun: its field is one
of those that are shown. -/
def OrderStands (s : List Char) : Prop :=
  (∃ fields, CutShort [] (DisplayLexemes fields '.') s) ∨
    (∃ fields rest, Stands (DisplayLexemes fields '.') s rest) ∨
    ∃ fields rest, Stands (DisplayLexemes fields ';') s rest ∧ ∃ f ∈ fields, SortStands f rest

/-- The sentence is well formed up to the end of a clause, but for a full stop. -/
def WellFormed (source : String) : Clause → Prop
  | .dataset => ∃ rest, Stands DatasetLexemes source.toList rest
  | .filter => AfterFilter source fun _ => True
  | .display => AfterFilter source DisplayStands
  | .order => AfterFilter source OrderStands
  | .terminator => ∃ q, Asks source q

/-- A clause is violated, and none before it is. -/
def FirstViolated (source : String) (c : Clause) : Prop :=
  ¬ WellFormed source c ∧ ∀ c' : Clause, c'.place < c.place → WellFormed source c'

/-! ## Places -/

section Places

variable {source : String} {c c' : Clause}

/-- What stands behind the filter may be described more widely. -/
theorem AfterFilter.mono {p q : List Char → Prop} (h : AfterFilter source p)
    (hpq : ∀ s, p s → q s) : AfterFilter source q := by
  obtain ⟨s₁, s₂, hdataset, hfilter, hp⟩ := h
  exact ⟨s₁, s₂, hdataset, hfilter, hpq s₂ hp⟩

/-- Where an order stands a display does. -/
theorem OrderStands.display {s : List Char} (h : OrderStands s) : DisplayStands s := by
  rcases h with h | ⟨fields, rest, h⟩ | ⟨fields, rest, h, -⟩
  · exact .inl h
  · exact .inr ⟨fields, false, rest, h⟩
  · exact .inr ⟨fields, true, rest, h⟩

/-- A sentence that asks a query has its order clause well formed, if it has one. -/
theorem Asks.order {q : Query} (h : Asks source q) : WellFormed source .order := by
  obtain ⟨hvalid, finds, fields, mark, shows, ending, hfinds, hshows, hfields, hending, rest,
    htakes, -⟩ := h
  simp only [List.append_assoc] at htakes
  rw [← List.append_assoc, takes_append] at htakes
  obtain ⟨s₁, htakes₁, htakes⟩ := htakes
  obtain ⟨s₂, htakes₂, htakes⟩ := takes_append.1 htakes
  rw [← List.append_assoc, takes_append] at htakes
  obtain ⟨s₃, htakes₃, htakes₄⟩ := htakes
  refine ⟨s₁, s₂, ⟨_, ⟨_, hvalid, rfl⟩, htakes₁⟩, ⟨_, ⟨_, hfinds⟩, htakes₂⟩, ?_⟩
  generalize hsort : q.sort = sort at hending
  cases hending with
  | stop => exact .inr (.inl ⟨fields, s₃, _, ⟨_, hshows, rfl⟩, htakes₃⟩)
  | order f =>
    refine .inr (.inr ⟨fields, s₃, ⟨_, ⟨_, hshows, rfl⟩, htakes₃⟩, f, ?_, .inr ⟨rest, _, rfl,
      htakes₄⟩⟩)
    exact (hfields f).1 (q.sort_mem f hsort)

/-- What is well formed up to a clause is so up to the clauses before it. -/
theorem WellFormed.before (h : WellFormed source c) (hplace : c'.place ≤ c.place) :
    WellFormed source c' := by
  have horder : WellFormed source .terminator → WellFormed source .order := fun ⟨_, hq⟩ => hq.order
  have hdisplay : WellFormed source .order → WellFormed source .display := fun h =>
    AfterFilter.mono h fun _ => OrderStands.display
  have hfilter : WellFormed source .display → WellFormed source .filter := fun h =>
    AfterFilter.mono h fun _ _ => trivial
  have hdataset : WellFormed source .filter → WellFormed source .dataset := fun ⟨s₁, _, h, _⟩ =>
    ⟨s₁, h⟩
  cases c <;> cases c' <;> grind [Clause.place]

/-- No two clauses are the first violated one. -/
theorem FirstViolated.unique (h : FirstViolated source c) (h' : FirstViolated source c') :
    c = c' := by
  have hle : ∀ {c c' : Clause}, FirstViolated source c → FirstViolated source c' →
      c.place ≤ c'.place := by
    intro c c' h h'
    by_contra hlt
    exact h'.1 (h.2 c' (Nat.lt_of_not_le hlt))
  have hplace := Nat.le_antisymm (hle h h') (hle h' h)
  cases c <;> cases c' <;> first | rfl | contradiction

/-- A clause that is violated right after one that is well formed is the first violated one. -/
theorem firstViolated_after (hbefore : WellFormed source c') (hplace : c.place = c'.place + 1)
    (hnot : ¬ WellFormed source c) : FirstViolated source c := by
  refine ⟨hnot, ?_⟩
  intro c₀ hc₀
  apply hbefore.before
  omega

end Places

/-! ## Clauses in tokens -/

section Tokens

variable {e : Nat} {s : List Char} {ts : List Token} {fields : List Field} {order : Bool}
  {f : Field}

/-- Words are laid out in a text exactly when its tokens are these words. -/
theorem laidOut_words_iff {ws : List (List Char)} (hs : size s ≤ e) (hws : ∀ w ∈ ws, IsWord w) :
    LaidOut ws s ↔ (tokensTo e s).map Token.chars = ws := by
  induction ws generalizing s with
  | nil =>
    rw [List.map_eq_nil_iff, tokensTo_eq_nil_iff hs]
    simp only [LaidOut, takes_nil, exists_eq_left]
  | cons w ws ih =>
    obtain ⟨hw, hmore⟩ := List.forall_mem_cons.1 hws
    have hlaidOut : LaidOut (w :: ws) s ↔ ∃ mid, word? s = some (w, mid) ∧ LaidOut ws mid := by
      simp only [LaidOut, takes_word hw]
      constructor
      · rintro ⟨rest, ⟨mid, hword, htakes⟩, hgap⟩
        exact ⟨mid, hword, rest, htakes, hgap⟩
      · rintro ⟨mid, hword, rest, htakes, hgap⟩
        exact ⟨rest, ⟨mid, hword, htakes⟩, hgap⟩
    rw [hlaidOut]
    cases hword : word? s with
    | none => simp [tokensTo_none hword]
    | some found =>
      obtain ⟨w', mid⟩ := found
      rw [tokensTo_some hs hword, List.map_cons, List.cons.injEq]
      have hmid := word?_size_le hword hs
      constructor
      · rintro ⟨mid', heq, hlaid⟩
        obtain ⟨rfl, rfl⟩ := Prod.mk.inj (Option.some.inj heq)
        exact ⟨String.toList_ofList, (ih hmid hmore).1 hlaid⟩
      · rintro ⟨heq, hlaid⟩
        obtain rfl : w' = w := String.toList_ofList.symm.trans heq
        exact ⟨mid, rfl, (ih hmid hmore).2 hlaid⟩

/-- A display clause is cut short in the text as it is among the tokens. -/
theorem cutShort_display_iff (lacks : Bool) (hs : size s ≤ e) :
    (∃ fields, CutShort (if lacks then ["and".toList] else []) (DisplayLexemes fields '.') s) ↔
      LooseDisplay lacks (tokensTo e s) := by
  have hshow : wordsOf "show" = ["show".toList] := by decide
  apply exists_congr
  intro fields
  constructor
  · rintro ⟨front, last, ⟨shows, hshows, hlexemes⟩, hlaid⟩
    rw [hshow, List.singleton_append] at hlexemes
    cases front with
    | nil =>
      cases lacks with
      | true => exact absurd (List.cons.inj hlexemes).1 (by decide)
      | false =>
        obtain ⟨-, rfl⟩ := List.cons.inj hlexemes
        cases hshows
    | cons w front =>
      obtain ⟨rfl, rfl⟩ := List.cons.inj hlexemes
      have hloose : LooseAt lacks true fields (front ++ [last]) := ⟨front, last, rfl, hshows⟩
      refine ⟨front ++ [last], (laidOut_words_iff hs ?_).1 hlaid, hloose⟩
      exact List.forall_mem_cons.2 ⟨by decide, hloose.isWord⟩
  · rintro ⟨words, hwords, hloose⟩
    have hisWord := List.forall_mem_cons.2 ⟨(by decide : IsWord "show".toList), hloose.isWord⟩
    have hlaid := (laidOut_words_iff hs hisWord).2 hwords
    obtain ⟨front, last, rfl, hshows⟩ := hloose
    refine ⟨"show".toList :: front, last, ⟨_, hshows, ?_⟩, hlaid⟩
    rw [hshow, List.singleton_append, List.cons_append]

/-- An order clause is cut short in the text as it is among the tokens. -/
theorem cutShort_order_iff (hs : size s ≤ e) :
    CutShort [] (OrderLexemes f) s ↔ LooseOrder f (tokensTo e s) := by
  have hisWord : ∀ w ∈ wordsOf "sort in ascending order by" ++ [f.name.toList], IsWord w := by
    cases f <;> decide
  rw [LooseOrder, ← laidOut_words_iff hs hisWord]
  constructor
  · rintro ⟨front, last, hlexemes, hlaid⟩
    obtain ⟨rfl, hlast⟩ := List.append_inj' hlexemes rfl
    rwa [List.append_cancel_right (List.singleton_inj.1 hlast)] at hlaid
  · intro hlaid
    exact ⟨_, _, rfl, hlaid⟩

/-- What is left behind a clause is a tail of the text. -/
theorem Stands.suffix {clause : List (List Char) → Prop} {rest : List Char}
    (h : Stands clause s rest) : rest <:+ s := by
  obtain ⟨ls, -, htakes⟩ := h
  exact htakes.suffix

/-- What is left behind a clause is no longer than the text. -/
theorem Stands.size_le {clause : List (List Char) → Prop} {rest : List Char}
    (h : Stands clause s rest) (hs : size s ≤ e) : size rest ≤ e := by
  obtain ⟨ls, -, htakes⟩ := h
  exact htakes.size_le hs

/-- What follows a clause in a text is what its reader leaves. -/
theorem exists_stands_iff {clause : List (List Char) → Prop} {leaves : List Token → Prop}
    {p : List Char → Prop} {q : List Token → Prop} (hs : size s ≤ e)
    (hleaves : ∀ ts, leaves ts ↔ ∃ rest, Stands clause s rest ∧ ts = tokensTo e rest)
    (hpq : ∀ rest, size rest ≤ e → (p rest ↔ q (tokensTo e rest))) :
    (∃ rest, Stands clause s rest ∧ p rest) ↔ ∃ ts, leaves ts ∧ q ts := by
  constructor
  · rintro ⟨rest, hstands, hp⟩
    refine ⟨tokensTo e rest, (hleaves _).2 ⟨rest, hstands, rfl⟩, ?_⟩
    exact (hpq rest (hstands.size_le hs)).1 hp
  · rintro ⟨ts, hread, hq⟩
    obtain ⟨rest, hstands, rfl⟩ := (hleaves ts).1 hread
    exact ⟨rest, hstands, (hpq rest (hstands.size_le hs)).2 hq⟩

/-- A clause stands in the text if its reader leaves something. -/
theorem stands_iff {clause : List (List Char) → Prop} {leaves : List Token → Prop}
    (hleaves : ∀ ts, leaves ts ↔ ∃ rest, Stands clause s rest ∧ ts = tokensTo e rest) :
    (∃ rest, Stands clause s rest) ↔ ∃ ts, leaves ts := by
  constructor
  · rintro ⟨rest, hstands⟩
    exact ⟨_, (hleaves _).2 ⟨rest, hstands, rfl⟩⟩
  · rintro ⟨ts, hread⟩
    obtain ⟨rest, hstands, -⟩ := (hleaves ts).1 hread
    exact ⟨rest, hstands⟩

/-- The dataset clause is read where it stands. -/
theorem datasetClause_stands (hs : size s ≤ e) (ts : List Token) :
    (∃ id, datasetClause (tokensTo e s) = .ok (id, ts)) ↔
      ∃ rest, Stands DatasetLexemes s rest ∧ ts = tokensTo e rest := by
  simp only [datasetClause_eq_ok_iff hs]
  constructor
  · rintro ⟨id, hid, rest, htakes, rfl⟩
    exact ⟨rest, ⟨_, ⟨id, hid, rfl⟩, htakes⟩, rfl⟩
  · rintro ⟨rest, ⟨_, ⟨id, hid, rfl⟩, htakes⟩, rfl⟩
    exact ⟨id, hid, rest, htakes, rfl⟩

/-- The filter clause is read where it stands. -/
theorem filterClause_stands {source : String} (hs : Within source e s) (ts : List Token) :
    (∃ f, filterClause source (tokensTo e s) = .ok (f, ts)) ↔
      ∃ rest, Stands FilterLexemes s rest ∧ ts = tokensTo e rest := by
  simp only [filterClause_eq_ok_iff hs]
  constructor
  · rintro ⟨f, ls, rest, hfinds, htakes, rfl⟩
    exact ⟨rest, ⟨ls, ⟨f, hfinds⟩, htakes⟩, rfl⟩
  · rintro ⟨rest, ⟨ls, ⟨f, hfinds⟩, htakes⟩, rfl⟩
    exact ⟨f, ls, rest, hfinds, htakes, rfl⟩

/-- The display clause is read where it stands. -/
theorem displayClause_stands (hs : size s ≤ e) (fields : List Field) (order : Bool)
    (ts : List Token) :
    displayClause (tokensTo e s) = .ok ((fields, order), ts) ↔
      ∃ rest, Stands (DisplayLexemes fields (endMark order)) s rest ∧ ts = tokensTo e rest := by
  rw [displayClause_eq_ok_iff hs]
  constructor
  · rintro ⟨shows, rest, hshows, htakes, rfl⟩
    exact ⟨rest, ⟨_, ⟨shows, hshows, rfl⟩, htakes⟩, rfl⟩
  · rintro ⟨rest, ⟨_, ⟨shows, hshows, rfl⟩, htakes⟩, rfl⟩
    exact ⟨shows, rest, hshows, htakes, rfl⟩

/-- The order clause is read where it stands. -/
theorem orderClause_stands (hs : size s ≤ e) (ts : List Token) :
    orderClause (tokensTo e s) = .ok (f, ts) ↔
      ∃ rest, Stands (OrderLexemes f) s rest ∧ ts = tokensTo e rest := by
  rw [orderClause_eq_ok_iff hs]
  constructor
  · rintro ⟨rest, htakes, rfl⟩
    exact ⟨rest, ⟨_, rfl, htakes⟩, rfl⟩
  · rintro ⟨rest, ⟨_, rfl, htakes⟩, rfl⟩
    exact ⟨rest, htakes, rfl⟩

/-- An order, perhaps without its full stop, stands in the text as it does among the tokens. -/
theorem sortStands_iff (hs : size s ≤ e) : SortStands f s ↔ Sorts f (tokensTo e s) := by
  rw [SortStands, Sorts, cutShort_order_iff hs, stands_iff (orderClause_stands hs)]

/-- A display stands in the text if its reader takes it or misses but the full stop. -/
theorem displayStands_iff (hs : size s ≤ e) :
    DisplayStands s ↔ LooseDisplay false (tokensTo e s) ∨
      ∃ fields order ts, displayClause (tokensTo e s) = .ok ((fields, order), ts) := by
  apply or_congr (cutShort_display_iff false hs)
  apply exists₂_congr
  intro fields order
  exact stands_iff (displayClause_stands hs fields order)

/-- An order stands in the text if none is announced, one of a shown field is there, or the display
lacks its full stop. -/
theorem orderStands_iff (hs : size s ≤ e) :
    OrderStands s ↔ LooseDisplay false (tokensTo e s) ∨
      (∃ fields ts, displayClause (tokensTo e s) = .ok ((fields, false), ts)) ∨
      ∃ fields ts, displayClause (tokensTo e s) = .ok ((fields, true), ts) ∧
        ∃ f ∈ fields, Sorts f ts := by
  apply or_congr (cutShort_display_iff false hs)
  apply or_congr
  · apply exists_congr
    intro fields
    exact stands_iff (displayClause_stands hs fields false)
  · apply exists_congr
    intro fields
    apply exists_stands_iff hs (displayClause_stands hs fields true)
    intro rest hrest
    simp only [sortStands_iff hrest]

end Tokens

end Sentence

end CourseQuery
