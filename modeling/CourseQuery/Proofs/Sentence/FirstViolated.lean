import CourseQuery.Proofs.Sentence.WellFormed

/-!
# The first violated clause

A rejection should blame the first clause that is not well formed. It does, except where the end of
the text hides what is wrong: `AndLeftOut` and `SortHidden` say when, and the end of the sentence is
blamed there.
-/

set_option autoImplicit false

namespace CourseQuery.Sentence

open Text.Utf8 (size)

/-- The text ends behind the shown fields, and the last of several does not stand after `and`. -/
def AndLeftOut (source : String) : Prop :=
  AfterFilter source fun s => ∃ fields, CutShort ["and".toList] (DisplayLexemes fields '.') s

/-- The order is by a field that is not shown, and the text ends without a full stop or goes on
after it. -/
def SortHidden (source : String) : Prop :=
  AfterFilter source fun s => ∃ fields rest, Stands (DisplayLexemes fields ';') s rest ∧
    ∃ f, f ∉ fields ∧ (CutShort [] (OrderLexemes f) rest ∨
      ∃ rest', Stands (OrderLexemes f) rest rest' ∧ ¬ Gap rest')

/-- The end of a sentence hides what is wrong with a clause before it. -/
def BlamesLate (source : String) : Prop :=
  AndLeftOut source ∨ SortHidden source

/-! ## The end of a sentence -/

section End

variable {fields : List Field} {order : Bool} {ts : List Token}

/-- Reads what follows the display clause and builds the query. -/
def readEnd (dataset : String) (filter : Filter) (fields : List Field) (order : Bool)
    (ts : List Token) : Except Rejection Query := do
  let (sort, ts) ← sortClause order ts
  terminator ts
  (Query.ofParts dataset filter fields sort).mapError Rejection.ofQueryFault

/-- The reader fails at the sort clause when there is to be one and its order is rejected. -/
theorem sortClause_eq_error_iff {r : Rejection} :
    sortClause order ts = .error r ↔ order = true ∧ orderClause ts = .error r := by
  cases order with
  | false => simp [sortClause]
  | true =>
    rw [sortClause, if_pos rfl, map_eq_error_iff]
    exact (and_iff_right rfl).symm

/-- A sort clause that is read is none, where none is to be, or the field of the order. -/
theorem sortClause_eq_ok_cases {sort : Option Field} {left : List Token}
    (h : sortClause order ts = .ok (sort, left)) :
    (order = false ∧ sort = none) ∨
      (order = true ∧ ∃ f, sort = some f ∧ orderClause ts = .ok (f, left)) := by
  cases order with
  | false =>
    obtain ⟨rfl, -⟩ := Prod.mk.inj (Except.ok.inj h)
    exact .inl ⟨rfl, rfl⟩
  | true =>
    rw [sortClause, if_pos rfl] at h
    obtain ⟨⟨f, left'⟩, hread, heq⟩ := map_eq_ok_iff.1 h
    obtain ⟨rfl, rfl⟩ := Prod.mk.inj heq
    exact .inr ⟨rfl, f, rfl, hread⟩

/-- The reader of the end fails in the order clause, on what is left behind it, or on its field. -/
theorem readEnd_error_cases {dataset : String} {filter : Filter} {r : Rejection}
    (hfields : fields ≠ []) (h : readEnd dataset filter fields order ts = .error r) :
    (order = true ∧ orderClause ts = .error r) ∨
    (r.clause = .terminator ∧ ∃ sort left, sortClause order ts = .ok (sort, left) ∧ left ≠ []) ∨
    (r.clause = .order ∧ order = true ∧ ∃ f, f ∉ fields ∧ orderClause ts = .ok (f, [])) := by
  rcases bind_eq_error_iff.1 h with hsort | ⟨⟨sort, left⟩, hsort, hmore⟩
  · exact .inl (sortClause_eq_error_iff.1 hsort)
  · rcases bind_eq_error_iff.1 hmore with hend | ⟨_, hend, hquery⟩
    · cases left with
      | nil => contradiction
      | cons t left =>
        refine .inr (.inl ⟨?_, sort, _, hsort, List.cons_ne_nil t left⟩)
        rw [← Except.error.inj hend]
        rfl
    · obtain rfl := terminator_eq_ok_iff.1 hend
      obtain ⟨fault, hparts, rfl⟩ := mapError_eq_error_iff.1 hquery
      obtain ⟨f, rfl, hf, rfl⟩ := Query.eq_of_ofParts_eq_error hfields hparts
      rcases sortClause_eq_ok_cases hsort with ⟨-, hnone⟩ | ⟨horder, f', hsome, hread⟩
      · contradiction
      · obtain rfl := Option.some.inj hsome
        exact .inr (.inr ⟨rfl, horder, f, hf, hread⟩)

/-- The end is blamed for what follows the order clause, and for hiding a field of the order that is
not shown. Otherwise the order clause is blamed. -/
theorem clause_of_readEnd {dataset : String} {filter : Filter} {r : Rejection}
    (hfields : fields ≠ []) (h : readEnd dataset filter fields order ts = .error r) :
    (r.clause = .terminator ∧ ((order = true → ∃ f ∈ fields, Sorts f ts) ∨
      order = true ∧ ∃ f, f ∉ fields ∧ HiddenSort f ts)) ∨
    (r.clause = .order ∧ order = true ∧ ∀ f, Sorts f ts → f ∉ fields ∧ ¬ HiddenSort f ts) := by
  -- a field with a bad end is either shown, so that the clause is well formed, or hidden
  have hhidden : ∀ f, HiddenSort f ts → (order = true → ∃ f ∈ fields, Sorts f ts) ∨
      order = true ∧ ∃ f, f ∉ fields ∧ HiddenSort f ts := by
    intro f hf
    cases order with
    | false => exact .inl nofun
    | true =>
      by_cases hmem : f ∈ fields
      · exact .inl fun _ => ⟨f, hmem, hf.sorts⟩
      · exact .inr ⟨rfl, f, hmem, hf⟩
  rcases readEnd_error_cases hfields h with ⟨horder, hread⟩ | ⟨hr, sort, left, hsort, hleft⟩ |
    ⟨hr, horder, f, hf, hread⟩
  · rcases orderClause_blames ts r hread with hr | hr
    · refine .inr ⟨hr, horder, ?_⟩
      rintro f (hloose | ⟨left, hread'⟩)
      · have hclause := (rejects_orderClause_iff.2 ⟨f, hloose⟩).clause_eq hread
        rw [hr] at hclause
        contradiction
      · rw [hread] at hread'
        contradiction
    · obtain ⟨f, hloose⟩ := rejects_orderClause_iff.1 ⟨r, hread, hr⟩
      exact .inl ⟨hr, hhidden f (.inl hloose)⟩
  · rcases sortClause_eq_ok_cases hsort with ⟨rfl, -⟩ | ⟨-, f, -, hread⟩
    · exact .inl ⟨hr, .inl nofun⟩
    · exact .inl ⟨hr, hhidden f (.inr ⟨left, hread, hleft⟩)⟩
  · refine .inr ⟨hr, horder, ?_⟩
    intro f' hf'
    obtain rfl : f = f' := Sorts.unique (.inr ⟨[], hread⟩) hf'
    refine ⟨hf, ?_⟩
    rintro (hloose | ⟨left, hread', hleft⟩)
    · exact hloose.not_ok _ hread
    · rw [hread] at hread'
      exact hleft (Prod.mk.inj (Except.ok.inj hread')).2.symm

end End

/-! ## A sentence of which the filter has been read -/

section AfterFilter

variable {source id : String} {filter : Filter} {ts₁ ts₂ : List Token}

/-- In the text and among its tokens a hidden sort is the same. -/
theorem sortHidden_tokens_iff {e : Nat} {s : List Char} (hs : size s ≤ e) :
    (∃ fields rest, Stands (DisplayLexemes fields ';') s rest ∧
      ∃ f, f ∉ fields ∧ (CutShort [] (OrderLexemes f) rest ∨
        ∃ rest', Stands (OrderLexemes f) rest rest' ∧ ¬ Gap rest')) ↔
      ∃ fields ts, displayClause (tokensTo e s) = .ok ((fields, true), ts) ∧
        ∃ f, f ∉ fields ∧ HiddenSort f ts := by
  apply exists_congr
  intro fields
  apply exists_stands_iff hs (displayClause_stands hs fields true)
  intro rest hrest
  apply exists_congr
  intro f
  apply and_congr_right
  intro hf
  apply or_congr (cutShort_order_iff hrest)
  apply exists_stands_iff hrest (orderClause_stands hrest)
  intro rest' hrest'
  rw [Ne, tokensTo_eq_nil_iff hrest']

/-- The dataset clause is well formed if it is read. -/
theorem wellFormed_dataset_iff :
    WellFormed source .dataset ↔ ∃ ts id, datasetClause (tokenize source) = .ok (id, ts) := by
  rw [tokenize_eq]
  exact stands_iff (datasetClause_stands (within_source source).size_le)

/-- What stands behind the filter clause is found in the tokens behind it. -/
theorem afterFilter_iff {p : List Char → Prop} {q : List Token → Prop}
    (hpq : ∀ s, size s ≤ size source.toList → (p s ↔ q (tokensTo (size source.toList) s))) :
    AfterFilter source p ↔ ∃ ts₁, (∃ id, datasetClause (tokenize source) = .ok (id, ts₁)) ∧
      ∃ ts₂, (∃ f, filterClause source ts₁ = .ok (f, ts₂)) ∧ q ts₂ := by
  have hsource := within_source source
  rw [tokenize_eq]
  constructor
  · rintro ⟨s₁, s₂, hdataset, hfilter, hp⟩
    have hs₁ := hsource.of_suffix hdataset.suffix
    refine ⟨_, (datasetClause_stands hsource.size_le _).2 ⟨s₁, hdataset, rfl⟩, _,
      (filterClause_stands hs₁ _).2 ⟨s₂, hfilter, rfl⟩, ?_⟩
    exact (hpq s₂ (hfilter.size_le hs₁.size_le)).1 hp
  · rintro ⟨ts₁, hdataset, ts₂, hfilter, hq⟩
    obtain ⟨s₁, hs₁, rfl⟩ := (datasetClause_stands hsource.size_le _).1 hdataset
    have hw₁ := hsource.of_suffix hs₁.suffix
    obtain ⟨s₂, hs₂, rfl⟩ := (filterClause_stands hw₁ _).1 hfilter
    exact ⟨s₁, s₂, hs₁, hs₂, (hpq s₂ (hs₂.size_le hw₁.size_le)).2 hq⟩

/-- Behind a dataset clause and a filter clause that are read stands what their readers leave. -/
theorem afterFilter_iff_of {p : List Char → Prop} {q : List Token → Prop}
    (hdataset : datasetClause (tokenize source) = .ok (id, ts₁))
    (hfilter : filterClause source ts₁ = .ok (filter, ts₂))
    (hpq : ∀ s, size s ≤ size source.toList → (p s ↔ q (tokensTo (size source.toList) s))) :
    AfterFilter source p ↔ q ts₂ := by
  rw [afterFilter_iff hpq]
  constructor
  · rintro ⟨ts, ⟨id', hdataset'⟩, ts', ⟨filter', hfilter'⟩, hq⟩
    rw [hdataset] at hdataset'
    obtain ⟨-, rfl⟩ := Prod.mk.inj (Except.ok.inj hdataset')
    rw [hfilter] at hfilter'
    obtain ⟨-, rfl⟩ := Prod.mk.inj (Except.ok.inj hfilter')
    exact hq
  · intro hq
    exact ⟨ts₁, ⟨id, hdataset⟩, ts₂, ⟨filter, hfilter⟩, hq⟩

/-- The filter clause is well formed if it and the dataset clause are read. -/
theorem wellFormed_filter_iff :
    WellFormed source .filter ↔ ∃ ts₁, (∃ id, datasetClause (tokenize source) = .ok (id, ts₁)) ∧
      ∃ ts₂, ∃ f, filterClause source ts₁ = .ok (f, ts₂) := by
  rw [WellFormed, afterFilter_iff (q := fun _ => True) fun _ _ => Iff.rfl]
  simp only [and_true]

/-- Only behind a filter can the end of a sentence hide anything. -/
theorem BlamesLate.wellFormed_filter (h : BlamesLate source) : WellFormed source .filter := by
  rcases h with h | h
  · exact AfterFilter.mono h fun _ _ => trivial
  · exact AfterFilter.mono h fun _ _ => trivial

section

variable (hdataset : datasetClause (tokenize source) = .ok (id, ts₁))
  (hfilter : filterClause source ts₁ = .ok (filter, ts₂))

include hdataset hfilter

/-- The `and` is left out if the display clause ends without it and without a full stop. -/
theorem andLeftOut_iff : AndLeftOut source ↔ LooseDisplay true ts₂ := by
  apply afterFilter_iff_of hdataset hfilter
  intro s hs
  exact cutShort_display_iff true hs

/-- A sort is hidden if the display clause announces one whose field is not shown and whose clause
breaks off or is followed by more. -/
theorem sortHidden_iff :
    SortHidden source ↔ ∃ fields ts, displayClause ts₂ = .ok ((fields, true), ts) ∧
      ∃ f, f ∉ fields ∧ HiddenSort f ts := by
  apply afterFilter_iff_of hdataset hfilter
  intro s hs
  exact sortHidden_tokens_iff hs

/-- The display clause is well formed if it is read or lacks but its full stop. -/
theorem wellFormed_display_iff :
    WellFormed source .display ↔ LooseDisplay false ts₂ ∨
      ∃ fields order ts, displayClause ts₂ = .ok ((fields, order), ts) := by
  apply afterFilter_iff_of hdataset hfilter
  intro s hs
  exact displayStands_iff hs

/-- The order clause is well formed if it is the display that lacks a full stop, if none is
announced, or if it names a shown field. -/
theorem wellFormed_order_iff :
    WellFormed source .order ↔ LooseDisplay false ts₂ ∨
      (∃ fields ts, displayClause ts₂ = .ok ((fields, false), ts)) ∨
      ∃ fields ts, displayClause ts₂ = .ok ((fields, true), ts) ∧ ∃ f ∈ fields, Sorts f ts := by
  apply afterFilter_iff_of hdataset hfilter
  intro s hs
  exact orderStands_iff hs

/-- What the reader of the shown fields rejects is blamed on the display clause, or on the end if
the text breaks off behind the fields. -/
theorem blamed_of_displayClause {r : Rejection} (hnot : ¬ WellFormed source .terminator)
    (hdisplay : displayClause ts₂ = .error r) :
    (BlamesLate source ∧ r.clause = .terminator) ∨
      (¬ BlamesLate source ∧ FirstViolated source r.clause) := by
  have hlate : BlamesLate source ↔ LooseDisplay true ts₂ := by
    rw [BlamesLate, andLeftOut_iff hdataset hfilter, sortHidden_iff hdataset hfilter, hdisplay]
    simp
  by_cases hlacks : LooseDisplay true ts₂
  · exact .inl ⟨hlate.2 hlacks, (rejects_displayClause_iff.2 ⟨_, hlacks⟩).clause_eq hdisplay⟩
  · refine .inr ⟨fun h => hlacks (hlate.1 h), ?_⟩
    by_cases hloose : LooseDisplay false ts₂
    · rw [(rejects_displayClause_iff.2 ⟨_, hloose⟩).clause_eq hdisplay]
      exact firstViolated_after ((wellFormed_order_iff hdataset hfilter).2 (.inl hloose)) rfl hnot
    · rcases displayClause_blames ts₂ r hdisplay with hr | hr
      · rw [hr]
        refine firstViolated_after (wellFormed_filter_iff.2 ⟨ts₁, ⟨_, hdataset⟩, ts₂, _, hfilter⟩)
          rfl ?_
        rw [wellFormed_display_iff hdataset hfilter, hdisplay]
        simpa using hloose
      · obtain ⟨lacks, h⟩ := rejects_displayClause_iff.1 ⟨r, hdisplay, hr⟩
        cases lacks
        · exact absurd h hloose
        · exact absurd h hlacks

section

variable {fields : List Field} {order : Bool} {ts₃ : List Token}
  (hdisplay : displayClause ts₂ = .ok ((fields, order), ts₃))

include hdisplay

/-- Behind a display clause that is read the order clause is well formed if none is announced or it
names a shown field. -/
theorem wellFormed_order_iff_of :
    WellFormed source .order ↔ (order = true → ∃ f ∈ fields, Sorts f ts₃) := by
  have hloose : ¬ LooseDisplay false ts₂ := fun h => h.not_ok _ hdisplay
  rw [wellFormed_order_iff hdataset hfilter, hdisplay]
  cases order with
  | false => simp
  | true => simp [hloose, and_assoc]

/-- Once the display clause is read, only the field of the order can be wrong without being blamed
for it. -/
theorem blamesLate_iff_of :
    BlamesLate source ↔ order = true ∧ ∃ f, f ∉ fields ∧ HiddenSort f ts₃ := by
  have hlacks : ¬ LooseDisplay true ts₂ := fun h => h.not_ok _ hdisplay
  rw [BlamesLate, andLeftOut_iff hdataset hfilter, sortHidden_iff hdataset hfilter, hdisplay]
  cases order with
  | false => simp [hlacks]
  | true => simp [hlacks, and_assoc]

/-- A display clause that is read shows a field. -/
theorem ne_nil_of_displayClause : fields ≠ [] := by
  have hsource := within_source source
  rw [tokenize_eq] at hdataset
  obtain ⟨s₁, hs₁, rfl⟩ := (datasetClause_stands hsource.size_le _).1 ⟨_, hdataset⟩
  have hw₁ := hsource.of_suffix hs₁.suffix
  obtain ⟨s₂, hs₂, rfl⟩ := (filterClause_stands hw₁ _).1 ⟨_, hfilter⟩
  obtain ⟨_, ⟨_, ⟨shows, hshows, -⟩, -⟩, -⟩ :=
    (displayClause_stands (hs₂.size_le hw₁.size_le) _ _ _).1 hdisplay
  cases hshows
  · exact List.cons_ne_nil _ _
  · exact List.cons_ne_nil _ _

/-- What is rejected behind the display clause is blamed as it should be, but for a hidden field of
the order. -/
theorem blamed_of_readEnd {r : Rejection} (hnot : ¬ WellFormed source .terminator)
    (hend : readEnd id filter fields order ts₃ = .error r) :
    (BlamesLate source ∧ r.clause = .terminator) ∨
      (¬ BlamesLate source ∧ FirstViolated source r.clause) := by
  have hfields := ne_nil_of_displayClause hdataset hfilter hdisplay
  have horder := wellFormed_order_iff_of hdataset hfilter hdisplay
  have hlate := blamesLate_iff_of hdataset hfilter hdisplay
  rcases clause_of_readEnd hfields hend with ⟨hr, h | h⟩ | ⟨hr, hsort, hnone⟩
  · by_cases hl : BlamesLate source
    · exact .inl ⟨hl, hr⟩
    · rw [hr]
      exact .inr ⟨hl, firstViolated_after (horder.2 h) rfl hnot⟩
  · exact .inl ⟨hlate.2 h, hr⟩
  · have hbefore := (wellFormed_display_iff hdataset hfilter).2 (.inr ⟨_, _, _, hdisplay⟩)
    rw [hr]
    refine .inr ⟨?_, firstViolated_after hbefore rfl ?_⟩
    · rw [hlate]
      rintro ⟨-, f, -, hf⟩
      exact (hnone f hf.sorts).2 hf
    · rw [horder]
      intro h
      obtain ⟨f, hf, hsorts⟩ := h hsort
      exact (hnone f hsorts).1 hf

end

end

/-- The whole sentence is well formed if it is read. -/
theorem wellFormed_terminator_iff :
    WellFormed source .terminator ↔ ∃ q, read source = .ok q := by
  constructor
  · rintro ⟨q, hasks⟩
    exact ⟨q, read_of_asks hasks⟩
  · rintro ⟨q, hread⟩
    exact ⟨q, asks_of_read hread⟩

/-- What a rejection blames, whichever reader fails. -/
theorem blamed_of_read {r : Rejection} (h : read source = .error r) :
    (BlamesLate source ∧ r.clause = .terminator) ∨
      (¬ BlamesLate source ∧ FirstViolated source r.clause) := by
  have hnot : ¬ WellFormed source .terminator := by
    rw [wellFormed_terminator_iff, h]
    simp
  rw [read_eq] at h
  rcases bind_eq_error_iff.1 h with hdataset | ⟨⟨id, ts₁⟩, hdataset, h⟩
  · have hviolated : ¬ WellFormed source .dataset := by
      rw [wellFormed_dataset_iff, hdataset]
      simp
    rw [datasetClause_blames _ r hdataset]
    refine .inr ⟨fun hlate => ?_, hviolated, fun c hc => absurd hc (Nat.not_lt_zero _)⟩
    exact hviolated (hlate.wellFormed_filter.before (by decide))
  · rcases bind_eq_error_iff.1 h with hfilter | ⟨⟨filter, ts₂⟩, hfilter, h⟩
    · have hviolated : ¬ WellFormed source .filter := by
        rw [wellFormed_filter_iff, hdataset]
        rintro ⟨ts, ⟨_, heq⟩, ts', filter, hread⟩
        obtain ⟨-, rfl⟩ := Prod.mk.inj (Except.ok.inj heq)
        rw [hfilter] at hread
        contradiction
      rw [filterClause_blames _ r hfilter]
      refine .inr ⟨fun hlate => hviolated hlate.wellFormed_filter, ?_⟩
      exact firstViolated_after (wellFormed_dataset_iff.2 ⟨ts₁, id, hdataset⟩) rfl hviolated
    · rcases bind_eq_error_iff.1 h with hdisplay | ⟨⟨⟨fields, order⟩, ts₃⟩, hdisplay, h⟩
      · exact blamed_of_displayClause hdataset hfilter hnot hdisplay
      · exact blamed_of_readEnd hdataset hfilter hdisplay hnot h

/-- Where the last `and` is left out, the display clause is the first violated one. -/
theorem AndLeftOut.firstViolated (h : AndLeftOut source) : FirstViolated source .display := by
  have hbefore := BlamesLate.wellFormed_filter (.inl h)
  obtain ⟨ts₁, ⟨id, hdataset⟩, ts₂, filter, hfilter⟩ := wellFormed_filter_iff.1 hbefore
  have hlacks := (andLeftOut_iff hdataset hfilter).1 h
  apply firstViolated_after hbefore rfl
  rw [wellFormed_display_iff hdataset hfilter]
  rintro (hloose | ⟨fields, order, ts, hread⟩)
  · exact absurd (hlacks.lacks_unique hloose) (by decide)
  · exact hlacks.not_ok _ hread

/-- Where the order is by a field that is not shown, the order clause is the first violated one. -/
theorem SortHidden.firstViolated (h : SortHidden source) : FirstViolated source .order := by
  obtain ⟨ts₁, ⟨id, hdataset⟩, ts₂, filter, hfilter⟩ :=
    wellFormed_filter_iff.1 (BlamesLate.wellFormed_filter (.inr h))
  obtain ⟨fields, ts₃, hdisplay, f, hf, hhidden⟩ := (sortHidden_iff hdataset hfilter).1 h
  have hbefore := (wellFormed_display_iff hdataset hfilter).2 (.inr ⟨_, _, _, hdisplay⟩)
  apply firstViolated_after hbefore rfl
  rw [wellFormed_order_iff_of hdataset hfilter hdisplay]
  intro hsorts
  obtain ⟨f', hf', hsorts⟩ := hsorts rfl
  rw [hhidden.sorts.unique hsorts] at hf
  exact hf hf'

/-- A sentence whose reader blames late is not well formed. -/
theorem BlamesLate.not_wellFormed (h : BlamesLate source) : ¬ WellFormed source .terminator := by
  intro hend
  rcases h with h | h
  · exact h.firstViolated.1 (hend.before (by decide))
  · exact h.firstViolated.1 (hend.before (by decide))

/-- A rejection names the first violated clause, with two exceptions, in which it names the end of
the sentence: the display clause lacks its last `and` as well as its mark, or the order is by a
field that is not shown and the sentence does not end with the full stop after it. The first
violated clause is then the display clause or the order clause. -/
theorem rejects_iff_firstViolated (source : String) (c : Clause) :
    ((∃ r, read source = .error r ∧ r.clause = c) ↔
      (BlamesLate source ∧ c = .terminator) ∨ (¬ BlamesLate source ∧ FirstViolated source c)) ∧
    (AndLeftOut source → FirstViolated source .display) ∧
    (SortHidden source → FirstViolated source .order) := by
  refine ⟨⟨?_, ?_⟩, AndLeftOut.firstViolated, SortHidden.firstViolated⟩
  · rintro ⟨r, hread, rfl⟩
    exact blamed_of_read hread
  · intro h
    have hnot : ¬ WellFormed source .terminator := by
      rcases h with ⟨hlate, -⟩ | ⟨-, hfirst⟩
      · exact hlate.not_wellFormed
      · intro hend
        exact hfirst.1 (hend.before (by cases c <;> decide))
    cases hread : read source with
    | ok q => exact absurd (wellFormed_terminator_iff.2 ⟨q, hread⟩) hnot
    | error r =>
      refine ⟨r, rfl, ?_⟩
      rcases blamed_of_read hread with ⟨hlate, hr⟩ | ⟨hlate, hr⟩
      · rcases h with ⟨-, hc⟩ | ⟨hlate', -⟩
        · rw [hr, hc]
        · exact absurd hlate hlate'
      · rcases h with ⟨hlate', -⟩ | ⟨-, hc⟩
        · exact absurd hlate' hlate
        · exact hr.unique hc

/-- A sentence that lacks its last `and` as well as its full stop. -/
def looseSentence : String :=
  "In courses dataset abc, find all entries; show Title, Average"

/-- The end of this sentence is blamed although its display clause is violated before. -/
theorem read_looseSentence :
    ∃ r, read looseSentence = .error r ∧ r.clause = .terminator ∧
      ¬ WellFormed looseSentence .display := by
  have hdataset : datasetClause (tokenize looseSentence) =
      .ok ("abc", (tokenize looseSentence).drop 4) := by decide +kernel
  have hfilter : filterClause looseSentence ((tokenize looseSentence).drop 4) =
      .ok (.everything, (tokenize looseSentence).drop 7) := by decide +kernel
  have hwords : ((tokenize looseSentence).drop 7).map Token.chars =
      ["show".toList, "Title,".toList, "Average".toList] := by decide +kernel
  have hlacks : AndLeftOut looseSentence := by
    rw [andLeftOut_iff hdataset hfilter]
    exact ⟨[.title, .average], _, hwords, ["Title,".toList], "Average".toList, rfl,
      ShownFields.several .title (.last .average)⟩
  have hread : read looseSentence = .error (.malformed .terminator .fullStopMissing none) := by
    decide +kernel
  exact ⟨_, hread, rfl, hlacks.firstViolated.1⟩

end AfterFilter

end CourseQuery.Sentence
