import CourseQuery.Proofs.Text.Utf8

/-!
# Pairs in the order of their keys

Sorting pairs by their keys leaves the pairs of one key in their order, and there is no other order
that does both. So what is sorted depends on the pairs of each key alone, and where the keys are
different, on which pairs there are.
-/

set_option autoImplicit false

namespace CourseQuery.Text

section

variable {α : Type} {pairs pairs' sorted sorted' : List (String × α)} {key : String}

/-- The pairs of a key, in order. -/
def ofKey (key : String) (pairs : List (String × α)) : List (String × α) :=
  pairs.filter fun p => p.1 = key

/-- Pairs in the order of the bytes of their keys, those of one key in the order given. -/
structure SortedByKey (pairs sorted : List (String × α)) : Prop where
  ordered : sorted.Pairwise fun a b => Utf8.encode a.1 ≤ Utf8.encode b.1
  stable : ∀ key, ofKey key sorted = ofKey key pairs

/-- The pairs of a key are those that have it. -/
theorem mem_ofKey {p : String × α} : p ∈ ofKey key pairs ↔ p ∈ pairs ∧ p.1 = key := by
  rw [ofKey, List.mem_filter, decide_eq_true_eq]

/-- The pairs of a key are found in order. -/
theorem ofKey_cons (p : String × α) :
    ofKey key (p :: pairs) = if p.1 = key then p :: ofKey key pairs else ofKey key pairs := by
  unfold ofKey
  rw [List.filter_cons]
  simp only [decide_eq_true_eq]

/-! ## Sorting -/

/-- Pairs of one key are in order, so sorting all pairs keeps them as a part. -/
theorem ofKey_mergeSort (key : String) (pairs : List (String × α)) :
    ofKey key (pairs.mergeSort fun a b => decide (a.1 ≤ b.1)) = ofKey key pairs := by
  have hone : (ofKey key pairs).Pairwise fun a b => decide (a.1 ≤ b.1) = true := by
    refine List.pairwise_of_forall_mem_list fun a ha b hb => ?_
    have hkeys : a.1 = b.1 := (mem_ofKey.1 ha).2.trans (mem_ofKey.1 hb).2.symm
    exact decide_eq_true (hkeys ▸ String.le_refl a.1)
  have hpart : (ofKey key pairs).Sublist (pairs.mergeSort fun a b => decide (a.1 ≤ b.1)) :=
    List.sublist_mergeSort (fun a b c => by simpa using String.le_trans)
      (fun a b => by simpa using String.le_total a.1 b.1) hone List.filter_sublist
  have hkept : (ofKey key pairs).Sublist
      (ofKey key (pairs.mergeSort fun a b => decide (a.1 ≤ b.1))) := by
    have h := hpart.filter fun p => decide (p.1 = key)
    simpa only [ofKey, List.filter_filter, Bool.and_self] using h
  refine (hkept.eq_of_length ?_).symm
  exact ((List.mergeSort_perm pairs _).filter _).length_eq.symm

/-- Sorting by key gives the pairs in the order of their keys. -/
theorem sortedByKey_mergeSort (pairs : List (String × α)) :
    SortedByKey pairs (pairs.mergeSort fun a b => decide (a.1 ≤ b.1)) where
  ordered := by
    have h : (pairs.mergeSort fun a b => decide (a.1 ≤ b.1)).Pairwise
        fun a b => decide (a.1 ≤ b.1) = true :=
      List.pairwise_mergeSort (fun a b c => by simpa using String.le_trans)
        (fun a b => by simpa using String.le_total a.1 b.1) pairs
    exact h.imp fun hle => Utf8.encode_le_encode_iff.2 (of_decide_eq_true hle)
  stable := fun key => ofKey_mergeSort key pairs

/-! ## What is sorted -/

/-- Lists with the same pairs for each key have the same pairs. -/
theorem mem_iff_of_ofKey (hsame : ∀ key, ofKey key pairs = ofKey key pairs') {p : String × α} :
    p ∈ pairs ↔ p ∈ pairs' := by
  have hp : p ∈ ofKey p.1 pairs ↔ p ∈ ofKey p.1 pairs' := by rw [hsame p.1]
  rwa [mem_ofKey, mem_ofKey, and_iff_left rfl, and_iff_left rfl] at hp

/-- No two lists in the order of keys have the same pairs of each key. -/
theorem eq_of_ofKey (h : sorted.Pairwise fun a b => Utf8.encode a.1 ≤ Utf8.encode b.1)
    (h' : sorted'.Pairwise fun a b => Utf8.encode a.1 ≤ Utf8.encode b.1)
    (hsame : ∀ key, ofKey key sorted = ofKey key sorted') : sorted = sorted' := by
  induction sorted generalizing sorted' with
  | nil =>
    cases sorted' with
    | nil => rfl
    | cons b rest' =>
      exact absurd ((mem_iff_of_ofKey hsame).2 List.mem_cons_self) List.not_mem_nil
  | cons a rest ih =>
    cases sorted' with
    | nil => exact absurd ((mem_iff_of_ofKey hsame).1 List.mem_cons_self) List.not_mem_nil
    | cons b rest' =>
      rw [List.pairwise_cons] at h h'
      have hle : a.1 ≤ b.1 := by
        rcases List.mem_cons.1 ((mem_iff_of_ofKey hsame).2 List.mem_cons_self) with rfl | hb
        · exact String.le_refl _
        · exact Utf8.encode_le_encode_iff.1 (h.1 b hb)
      have hge : b.1 ≤ a.1 := by
        rcases List.mem_cons.1 ((mem_iff_of_ofKey hsame).1 List.mem_cons_self) with rfl | ha
        · exact String.le_refl _
        · exact Utf8.encode_le_encode_iff.1 (h'.1 a ha)
      have hkey : b.1 = a.1 := String.le_antisymm hge hle
      -- the first pair of the least key heads both lists
      have hfirst := hsame a.1
      rw [ofKey_cons, ofKey_cons, if_pos rfl, if_pos hkey, List.cons.injEq] at hfirst
      obtain ⟨rfl, hsameKey⟩ := hfirst
      have hrest : ∀ key, ofKey key rest = ofKey key rest' := fun key => by
        by_cases ha : a.1 = key
        · exact ha ▸ hsameKey
        · have hother := hsame key
          rwa [ofKey_cons, ofKey_cons, if_neg ha, if_neg ha] at hother
      rw [ih h.2 h'.2 hrest]

/-- Sorted pairs are the same for two lists exactly when these have the same pairs of each key. -/
theorem SortedByKey.eq_iff (h : SortedByKey pairs sorted) (h' : SortedByKey pairs' sorted') :
    sorted = sorted' ↔ ∀ key, ofKey key pairs = ofKey key pairs' := by
  constructor
  · rintro rfl key
    rw [← h.stable, h'.stable]
  · intro hsame
    refine eq_of_ofKey h.ordered h'.ordered fun key => ?_
    rw [h.stable, h'.stable, hsame key]

/-! ## Different keys -/

/-- Of different keys each has at most one pair. -/
theorem length_ofKey_le (h : (pairs.map Prod.fst).Nodup) (key : String) :
    (ofKey key pairs).length ≤ 1 := by
  have hkeys : ((ofKey key pairs).map Prod.fst).Nodup := h.sublist (List.filter_sublist.map _)
  match hof : ofKey key pairs with
  | [] => exact Nat.zero_le 1
  | [p] => exact Nat.le_refl 1
  | p :: q :: rest =>
    have hp : p.1 = key := (mem_ofKey.1 (hof ▸ List.mem_cons_self)).2
    have hq : q.1 = key := (mem_ofKey.1 (hof ▸ List.mem_cons_of_mem p List.mem_cons_self)).2
    rw [hof, List.map_cons, List.map_cons, hp, hq] at hkeys
    exact absurd List.mem_cons_self (List.nodup_cons.1 hkeys).1

/-- Lists of at most one element with the same elements are equal. -/
theorem eq_of_length_le_one {xs ys : List α} (hxs : xs.length ≤ 1) (hys : ys.length ≤ 1)
    (h : ∀ a, a ∈ xs ↔ a ∈ ys) : xs = ys := by
  match xs, ys with
  | [], [] => rfl
  | [], y :: _ => exact absurd ((h y).2 List.mem_cons_self) List.not_mem_nil
  | x :: _, [] => exact absurd ((h x).1 List.mem_cons_self) List.not_mem_nil
  | [x], [y] => rw [List.mem_singleton.1 ((h x).1 List.mem_cons_self)]

/-- Where keys are different, the pairs of each key are a matter of which pairs there are. -/
theorem ofKey_eq_iff (h : (pairs.map Prod.fst).Nodup) (h' : (pairs'.map Prod.fst).Nodup) :
    (∀ key, ofKey key pairs = ofKey key pairs') ↔ ∀ p, p ∈ pairs ↔ p ∈ pairs' := by
  constructor
  · exact fun hsame p => mem_iff_of_ofKey hsame
  · intro hmem key
    refine eq_of_length_le_one (length_ofKey_le h key) (length_ofKey_le h' key) fun p => ?_
    rw [mem_ofKey, mem_ofKey, hmem p]

end

end CourseQuery.Text
