import CourseQuery.Proofs.Text.Utf8
import CourseQuery.Sentence.Token
import Mathlib.Data.List.TakeWhile

/-!
# Words and lexemes in a text

A text is read from the front. `Gap` is a run of blanks, `IsWord` a run of other characters and
`Boundary` what may follow a word. Every text is a gap, or a gap, a word and a text that begins with
a boundary; `words_induction` is the induction over texts that follows this. A lexeme is a word or a
literal, which may hold blanks; a text `Takes` lexemes when they stand at its front, each with
blanks or nothing before it and a boundary after it.

The tokens of a text carry byte positions. `tokensTo e s` are the tokens of a text `s` that ends at
position `e`, so that the tokens of what is left of a text need no mention of what was taken from
it. `tokensTo_eq` is the only fact on the tokenizer that the readers need: the first token is the
word that `word?` finds, and the others are the tokens of what follows.
-/

set_option autoImplicit false

namespace CourseQuery.Sentence

open Text (isBlank)
open Text.Utf8 (size size_cons size_append)

/-- A run of blanks, perhaps empty. -/
def Gap (s : List Char) : Prop :=
  ∀ c ∈ s, isBlank c = true

/-- A text that is empty or begins with a blank. -/
def Boundary (s : List Char) : Prop :=
  ∀ c ∈ s.head?, isBlank c = true

/-- A run of characters that are not blank. -/
def IsWord (w : List Char) : Prop :=
  w ≠ [] ∧ ∀ c ∈ w, isBlank c = false

/-- A text begins with lexemes that stand apart, and `rest` is what follows the last of them. -/
inductive Takes : List (List Char) → List Char → List Char → Prop
  | nil (s : List Char) : Takes [] s s
  | cons {gap lexeme mid rest : List Char} {lexemes : List (List Char)} :
      Gap gap → Boundary mid → Takes lexemes mid rest →
      Takes (lexeme :: lexemes) (gap ++ (lexeme ++ mid)) rest

/-- A text is a list of lexemes with blanks around them. -/
def LaidOut (lexemes : List (List Char)) (s : List Char) : Prop :=
  ∃ rest, Takes lexemes s rest ∧ Gap rest

-- These go through the characters of the text; the instances that are found in general could go
-- through all characters there are.
instance (s : List Char) : Decidable (Gap s) :=
  List.decidableBAll (fun c => isBlank c = true) s

instance (s : List Char) : Decidable (Boundary s) :=
  Option.decidableForallMem (p := fun c => isBlank c = true) s.head?

instance (w : List Char) : Decidable (IsWord w) :=
  @instDecidableAnd _ _ instDecidableNot (List.decidableBAll (fun c => isBlank c = false) w)

section Blanks

variable {c : Char} {s t : List Char}

/-- No blanks are blanks. -/
theorem gap_nil : Gap [] := by simp [Gap]

/-- A word ends where the text does. -/
theorem boundary_nil : Boundary [] := by simp [Boundary]

/-- A word ends in front of a blank. -/
@[simp]
theorem boundary_cons : Boundary (c :: s) ↔ isBlank c = true := by
  simp [Boundary]

/-- A text is blank if its first character and the rest are. -/
@[simp]
theorem gap_cons : Gap (c :: s) ↔ isBlank c = true ∧ Gap s := by
  simp [Gap]

/-- Two texts are blank if both are. -/
@[simp]
theorem gap_append : Gap (s ++ t) ↔ Gap s ∧ Gap t := by
  simp only [Gap, List.mem_append]
  exact ⟨fun h => ⟨fun c hc => h c (.inl hc), fun c hc => h c (.inr hc)⟩,
    fun h c hc => hc.elim (h.1 c) (h.2 c)⟩

/-- Where a word ends in front of a text it ends in front of a longer one. -/
theorem Boundary.append (h : Boundary s) (hs : s ≠ []) : Boundary (s ++ t) := by
  cases s with
  | nil => contradiction
  | cons c s => exact boundary_cons.2 (boundary_cons.1 h)

/-- A word ends in front of two texts in front of which it ends. -/
theorem Boundary.append_boundary (hs : Boundary s) (ht : Boundary t) : Boundary (s ++ t) := by
  by_cases hne : s = []
  · rw [hne]
    exact ht
  · exact hs.append hne

/-- Where a word ends in front of two texts it ends in front of the first. -/
theorem Boundary.of_append (h : Boundary (s ++ t)) : Boundary s := by
  cases s with
  | nil => exact boundary_nil
  | cons c s => exact boundary_cons.2 (boundary_cons.1 h)

end Blanks

section Sizes

variable {s t : List Char}

/-- The bytes of the first of two texts are dropped from both. -/
theorem dropBytes_append (s t : List Char) : dropBytes (size s) (s ++ t) = some t := by
  induction s with
  | nil => cases t <;> simp [dropBytes]
  | cons c s ih =>
    have hc := c.utf8Size_pos
    rw [List.cons_append, dropBytes, if_neg (by simp; omega), if_pos (by simp), size_cons,
      Nat.add_sub_cancel_left, ih]

/-- The bytes of the first of two texts are taken from both. -/
theorem takeBytes_append (s t : List Char) : takeBytes (size s) (s ++ t) = some s := by
  induction s with
  | nil => cases t <;> simp [takeBytes]
  | cons c s ih =>
    have hc := c.utf8Size_pos
    rw [List.cons_append, takeBytes, if_neg (by simp; omega), if_pos (by simp), size_cons,
      Nat.add_sub_cancel_left, ih, Option.map_some]

/-- A part of the text is cut out at its place. -/
theorem slice_eq {source : String} {pre part post : List Char}
    (h : source.toList = pre ++ (part ++ post)) :
    slice source (size pre) (size pre + size part) = some part := by
  rw [slice, if_pos (Nat.le_add_right _ _), h, dropBytes_append, Option.bind_some,
    Nat.add_sub_cancel_left, takeBytes_append]

end Sizes

/-! ## The first word -/

/-- The first word of a text, and what follows it. -/
def word? (s : List Char) : Option (List Char × List Char) :=
  match s.dropWhile isBlank with
  | [] => none
  | c :: rest =>
    some ((c :: rest).takeWhile (!isBlank ·), (c :: rest).dropWhile (!isBlank ·))

section FirstWord

variable {s w rest : List Char}

/-- A text without a word is a gap. -/
theorem word?_eq_none_iff : word? s = none ↔ Gap s := by
  unfold word?
  cases h : s.dropWhile isBlank with
  | nil => exact iff_of_true rfl (List.dropWhile_eq_nil_iff.1 h)
  | cons c r =>
    refine iff_of_false (by simp) fun hgap => ?_
    rw [List.dropWhile_eq_nil_iff.2 hgap] at h
    contradiction

/-- The first word stands behind the first blanks and ends where it may. -/
theorem word?_gap_append {gap : List Char} (hgap : Gap gap) (hw : IsWord w)
    (hrest : Boundary rest) : word? (gap ++ (w ++ rest)) = some (w, rest) := by
  obtain ⟨hne, hw⟩ := hw
  cases w with
  | nil => contradiction
  | cons c w =>
    have hc : isBlank c = false := hw c List.mem_cons_self
    have hdrop : (gap ++ (c :: w ++ rest)).dropWhile isBlank = c :: w ++ rest := by
      rw [List.dropWhile_append_of_pos hgap, List.cons_append,
        List.dropWhile_cons_of_neg (by simp [hc])]
    have hw' : ∀ d ∈ c :: w, (!isBlank d) = true := fun d hd => by simp [hw d hd]
    have htake : rest.takeWhile (!isBlank ·) = [] ∧ rest.dropWhile (!isBlank ·) = rest := by
      cases rest with
      | nil => exact ⟨rfl, rfl⟩
      | cons d rest => simp [boundary_cons.1 hrest]
    unfold word?
    rw [hdrop]
    simp only [List.cons_append]
    rw [← List.cons_append, List.takeWhile_append_of_pos hw', List.dropWhile_append_of_pos hw',
      htake.1, htake.2, List.append_nil]

/-- The first word of a text stands between a gap and a boundary. -/
theorem word?_eq_some_iff :
    word? s = some (w, rest) ↔
      ∃ gap, s = gap ++ (w ++ rest) ∧ Gap gap ∧ IsWord w ∧ Boundary rest := by
  constructor
  · intro h
    unfold word? at h
    split at h
    · contradiction
    · rename_i c r hdrop
      obtain ⟨rfl, rfl⟩ := Prod.mk.inj (Option.some.inj h)
      have hc : isBlank c = false := by
        have := List.head?_dropWhile_not isBlank s
        simpa [hdrop] using this
      refine ⟨s.takeWhile isBlank, ?_, fun d hd => List.mem_takeWhile_imp hd, ⟨?_, ?_⟩, ?_⟩
      · rw [List.takeWhile_append_dropWhile, ← hdrop, List.takeWhile_append_dropWhile]
      · simp [hc]
      · intro d hd
        simpa using List.mem_takeWhile_imp hd
      · intro d hd
        have := List.head?_dropWhile_not (!isBlank ·) (c :: r)
        rw [Option.mem_def.1 hd] at this
        simpa using this
  · rintro ⟨gap, rfl, hgap, hw, hrest⟩
    exact word?_gap_append hgap hw hrest

/-- The first word begins with the first character that is not blank. -/
theorem head?_of_word? {gap x : List Char} {c : Char} (hgap : Gap gap) (hc : isBlank c = false)
    (h : word? (gap ++ c :: x) = some (w, rest)) : w.head? = some c := by
  have hdrop : (gap ++ c :: x).dropWhile isBlank = c :: x := by
    rw [List.dropWhile_append_of_pos hgap, List.dropWhile_cons_of_neg (by simp [hc])]
  rw [word?, hdrop] at h
  rw [← (Prod.mk.inj (Option.some.inj h)).1]
  simp [hc]

/-- A gap in front of a text does not change its first word. -/
theorem word?_behind_gap {gap : List Char} (hgap : Gap gap) : word? (gap ++ s) = word? s := by
  rw [word?, List.dropWhile_append_of_pos hgap]
  rfl

/-- Behind a word the text is shorter. -/
theorem word?_length (h : word? s = some (w, rest)) : rest.length < s.length := by
  obtain ⟨gap, rfl, -, ⟨hne, -⟩, -⟩ := word?_eq_some_iff.1 h
  have := List.length_pos_iff.2 hne
  simp only [List.length_append]
  omega

/-- Behind a word no more bytes are left. -/
theorem word?_size_le {e : Nat} (h : word? s = some (w, rest)) (hs : size s ≤ e) :
    size rest ≤ e := by
  obtain ⟨gap, rfl, -⟩ := word?_eq_some_iff.1 h
  simp only [size_append] at hs
  omega

/-- What holds of gaps, and of a text with a first word if it holds of what follows the word, holds
of every text. -/
@[elab_as_elim]
theorem words_induction {motive : List Char → Prop} (gap : ∀ s, Gap s → motive s)
    (word : ∀ gap w rest, Gap gap → IsWord w → Boundary rest → motive rest →
      motive (gap ++ (w ++ rest)))
    (s : List Char) : motive s := by
  induction hn : s.length using Nat.strongRecOn generalizing s with
  | ind n ih =>
    cases hword : word? s with
    | none => exact gap s (word?_eq_none_iff.1 hword)
    | some found =>
      obtain ⟨w, rest⟩ := found
      have hrest := ih rest.length (hn ▸ word?_length hword) rest rfl
      obtain ⟨front, rfl, hfront, hw, hboundary⟩ := word?_eq_some_iff.1 hword
      exact word front w rest hfront hw hboundary hrest

end FirstWord

/-! ## Taking lexemes -/

section Takes

variable {s mid rest : List Char} {ls ms : List (List Char)}

/-- Lexemes stand in a text one list behind the other. -/
theorem takes_append :
    Takes (ls ++ ms) s rest ↔ ∃ mid, Takes ls s mid ∧ Takes ms mid rest := by
  induction ls generalizing s with
  | nil =>
    refine ⟨fun h => ⟨s, .nil s, h⟩, ?_⟩
    rintro ⟨mid, hnil, h⟩
    cases hnil
    exact h
  | cons l ls ih =>
    constructor
    · intro h
      cases h with
      | cons hgap hmid h =>
        obtain ⟨mid', hls, hms⟩ := ih.1 h
        exact ⟨mid', .cons hgap hmid hls, hms⟩
    · rintro ⟨mid, hls, hms⟩
      cases hls with
      | cons hgap hmid h => exact .cons hgap hmid (ih.2 ⟨mid, h, hms⟩)

/-- No lexemes stand anywhere. -/
theorem takes_nil : Takes [] s rest ↔ rest = s := by
  constructor
  · intro h
    cases h
    rfl
  · rintro rfl
    exact .nil _

/-- A lexeme stands behind blanks and in front of the others. -/
theorem takes_cons {l : List Char} :
    Takes (l :: ls) s rest ↔
      ∃ gap mid, s = gap ++ (l ++ mid) ∧ Gap gap ∧ Boundary mid ∧ Takes ls mid rest := by
  constructor
  · intro h
    cases h with
    | cons hgap hmid h => exact ⟨_, _, rfl, hgap, hmid, h⟩
  · rintro ⟨gap, mid, rfl, hgap, hmid, h⟩
    exact .cons hgap hmid h

/-- A word is taken exactly when it is the first word. -/
theorem takes_word {w : List Char} (hw : IsWord w) :
    Takes (w :: ls) s rest ↔ ∃ mid, word? s = some (w, mid) ∧ Takes ls mid rest := by
  rw [takes_cons]
  constructor
  · rintro ⟨gap, mid, rfl, hgap, hmid, h⟩
    exact ⟨mid, word?_gap_append hgap hw hmid, h⟩
  · rintro ⟨mid, hword, h⟩
    obtain ⟨gap, rfl, hgap, -, hmid⟩ := word?_eq_some_iff.1 hword
    exact ⟨gap, mid, rfl, hgap, hmid, h⟩

/-- A text whose first word is known begins with no other. -/
theorem takes_word_of {l w : List Char} (hl : IsWord l) (h : word? s = some (w, mid)) :
    Takes (l :: ls) s rest ↔ w = l ∧ Takes ls mid rest := by
  rw [takes_word hl, h]
  constructor
  · rintro ⟨mid', hmid, htakes⟩
    obtain ⟨rfl, rfl⟩ := Prod.mk.inj (Option.some.inj hmid)
    exact ⟨rfl, htakes⟩
  · rintro ⟨rfl, htakes⟩
    exact ⟨mid, rfl, htakes⟩

/-- What is left behind lexemes is a tail of the text. -/
theorem Takes.suffix (h : Takes ls s rest) : rest <:+ s := by
  induction h with
  | nil s => exact List.suffix_refl s
  | cons _ _ _ ih =>
    exact ih.trans ((List.suffix_append _ _).trans (List.suffix_append _ _))

/-- What is left behind lexemes is no longer than the text. -/
theorem Takes.size_le {e : Nat} (h : Takes ls s rest) (hs : size s ≤ e) : size rest ≤ e := by
  obtain ⟨front, rfl⟩ := h.suffix
  rw [size_append] at hs
  omega

/-- Lexemes are taken from a longer text as well, if something followed them already. -/
theorem Takes.append_right {t : List Char} (h : Takes ls s rest) (hrest : rest ≠ []) :
    Takes ls (s ++ t) (rest ++ t) := by
  induction h with
  | nil s => exact .nil _
  | @cons gap l mid rest ls hgap hmid h ih =>
    have hne : mid ≠ [] := by
      rintro rfl
      exact hrest (List.suffix_nil.1 h.suffix)
    rw [List.append_assoc, List.append_assoc]
    exact .cons hgap (hmid.append hne) (ih hrest)

/-- Lexemes are taken from a shorter text as well, if what is cut off follows all of them. -/
theorem Takes.of_append_right {t : List Char} (h : Takes ls (s ++ t) (rest ++ t)) :
    Takes ls s rest := by
  generalize hs : s ++ t = s', hrest : rest ++ t = rest' at h
  induction h generalizing s with
  | nil s' =>
    subst hs
    exact takes_nil.2 (List.append_cancel_right hrest)
  | @cons gap l mid rest' ls hgap hmid h ih =>
    obtain ⟨front, hfront⟩ := h.suffix
    subst hrest
    rw [← List.append_assoc] at hfront
    have hs' : s = gap ++ (l ++ (front ++ rest)) := by
      rw [← hfront] at hs
      exact List.append_cancel_right (hs.trans (by simp))
    rw [← hfront] at hmid
    rw [hs']
    exact .cons hgap hmid.of_append (ih hfront rfl)

end Takes

/-! ## Lexemes of two texts -/

section Texts

variable {ls us ws : List (List Char)} {s t gap mid rest : List Char}

/-- Lexemes are taken from a text that goes on, unless it goes on inside the last of them. -/
theorem Takes.append_boundary (h : Takes ls s rest) (ht : Boundary t) :
    Takes ls (s ++ t) (rest ++ t) := by
  induction h with
  | nil s => exact .nil _
  | cons hgap hmid _ ih =>
    rw [List.append_assoc, List.append_assoc]
    exact .cons hgap (hmid.append_boundary ht) ih

/-- Lexemes stand in a text also behind further blanks. -/
theorem Takes.gap_append (h : Takes ls s rest) (hne : ls ≠ []) (hgap : Gap gap) :
    Takes ls (gap ++ s) rest := by
  cases h with
  | nil => contradiction
  | cons hgap' hmid htakes =>
    rw [← List.append_assoc]
    exact .cons (gap_append.2 ⟨hgap, hgap'⟩) hmid htakes

/-- Blanks in front of a word do not count for lexemes. -/
theorem takes_gap_append {w : List Char} (hw : IsWord w) (hgap : Gap gap) :
    Takes (w :: ls) (gap ++ s) rest ↔ Takes (w :: ls) s rest := by
  rw [takes_word hw, takes_word hw, word?_behind_gap hgap]

/-- A text has its first words in one way only. -/
theorem Takes.words_eq (h : Takes (us ++ ls) s rest) (hus : ∀ u ∈ us, IsWord u)
    (hws : ∀ w ∈ ws, IsWord w) (hlength : us.length = ws.length) (hfront : Takes ws s mid) :
    us = ws ∧ Takes ls mid rest := by
  induction us generalizing ws s with
  | nil =>
    obtain rfl := List.length_eq_zero_iff.1 hlength.symm
    obtain rfl := takes_nil.1 hfront
    exact ⟨rfl, h⟩
  | cons u us ih =>
    obtain ⟨w, ws, rfl⟩ := List.exists_cons_of_length_eq_add_one hlength.symm
    obtain ⟨hu, hus'⟩ := List.forall_mem_cons.1 hus
    obtain ⟨hw, hws'⟩ := List.forall_mem_cons.1 hws
    obtain ⟨s', hword, hfront⟩ := (takes_word hw).1 hfront
    obtain ⟨rfl, hmore⟩ := (takes_word_of hu hword).1 h
    obtain ⟨rfl, hleft⟩ := ih hmore hus' hws' (Nat.succ.inj hlength) hfront
    exact ⟨rfl, hleft⟩

/-- The words of a text that is cut at a blank are those of its two parts. -/
theorem LaidOut.split (h : LaidOut ws (s ++ ' ' :: t)) (hws : ∀ w ∈ ws, IsWord w) :
    ∃ us vs, ws = us ++ vs ∧ LaidOut us s ∧ LaidOut vs t := by
  induction ws generalizing s with
  | nil =>
    obtain ⟨rest, htakes, hrest⟩ := h
    obtain rfl := takes_nil.1 htakes
    obtain ⟨hs, ht⟩ := gap_append.1 hrest
    exact ⟨[], [], rfl, ⟨s, .nil s, hs⟩, t, .nil t, (gap_cons.1 ht).2⟩
  | cons w ws ih =>
    obtain ⟨hw, hws'⟩ := List.forall_mem_cons.1 hws
    obtain ⟨rest, htakes, hrest⟩ := h
    have hblank : isBlank ' ' = true := by decide
    cases hword : word? s with
    | none =>
      have hs := word?_eq_none_iff.1 hword
      have hcut : Gap (s ++ [' ']) := gap_append.2 ⟨hs, gap_cons.2 ⟨hblank, gap_nil⟩⟩
      have htext : s ++ ' ' :: t = s ++ [' '] ++ t := by simp
      rw [htext, takes_gap_append hw hcut] at htakes
      exact ⟨[], w :: ws, rfl, ⟨s, .nil s, hs⟩, rest, htakes, hrest⟩
    | some found =>
      obtain ⟨w', s'⟩ := found
      obtain ⟨gap, rfl, hgap, hw', hs'⟩ := word?_eq_some_iff.1 hword
      have hcut := hs'.append_boundary (boundary_cons.2 hblank : Boundary (' ' :: t))
      have htext : gap ++ (w' ++ s') ++ ' ' :: t = gap ++ (w' ++ (s' ++ ' ' :: t)) := by simp
      rw [htext, takes_word_of hw (word?_gap_append hgap hw' hcut)] at htakes
      obtain ⟨rfl, hmore⟩ := htakes
      obtain ⟨us, vs, rfl, ⟨rest', hus, hrest'⟩, hvs⟩ := ih ⟨rest, hmore, hrest⟩ hws'
      exact ⟨w' :: us, vs, rfl, ⟨rest', .cons hgap hs' hus, hrest'⟩, hvs⟩

end Texts

/-! ## Tokens -/

/-- The tokens of a text that ends at a byte position. -/
def tokensTo (e : Nat) (s : List Char) : List Token :=
  Token.tokensFrom (e - size s) s

section Tokens

variable {e start : Nat} {s w rest : List Char}

/-- Blanks have no tokens. -/
theorem tokensFrom_gap (h : Gap s) : Token.tokensFrom start s = [] := by
  rw [Token.tokensFrom]
  split
  · rfl
  · rename_i c r hdrop
    rw [List.dropWhile_eq_nil_iff.2 h] at hdrop
    contradiction

/-- The first word of a text is its first token. -/
theorem tokensFrom_word {gap : List Char} (hgap : Gap gap) (hw : IsWord w)
    (hrest : Boundary rest) :
    Token.tokensFrom start (gap ++ (w ++ rest)) =
      ⟨String.ofList w, start + size gap, start + size gap + size w⟩ ::
        Token.tokensFrom (start + size gap + size w) rest := by
  have hword := word?_gap_append hgap hw hrest
  rw [word?] at hword
  rw [Token.tokensFrom]
  split at hword
  · contradiction
  · rename_i c r hdrop
    obtain ⟨hwd, hrd⟩ := Prod.mk.inj (Option.some.inj hword)
    have htake : (gap ++ (w ++ rest)).takeWhile isBlank = gap := by
      have hsplit := List.takeWhile_append_dropWhile (p := isBlank) (l := gap ++ (w ++ rest))
      rw [hdrop, ← List.takeWhile_append_dropWhile (p := (!isBlank ·)) (l := c :: r), hwd,
        hrd] at hsplit
      exact List.append_cancel_right hsplit
    split
    · rename_i hdrop'
      rw [hdrop] at hdrop'
      contradiction
    · rename_i c' r' hdrop'
      rw [hdrop] at hdrop'
      obtain ⟨rfl, rfl⟩ := List.cons.inj hdrop'
      rw [htake, hwd, hrd]

/-- The first token of a text is its first word, with the positions of its ends, and the others are
the tokens of what follows. -/
theorem tokensTo_eq (h : size s ≤ e) :
    tokensTo e s =
      match word? s with
      | none => []
      | some (w, rest) =>
        ⟨String.ofList w, e - size (w ++ rest), e - size rest⟩ :: tokensTo e rest := by
  cases hword : word? s with
  | none => exact tokensFrom_gap (word?_eq_none_iff.1 hword)
  | some found =>
    obtain ⟨w, rest⟩ := found
    obtain ⟨gap, rfl, hgap, hw, hrest⟩ := word?_eq_some_iff.1 hword
    simp only [size_append] at h
    have hstart : e - size (gap ++ (w ++ rest)) + size gap = e - size (w ++ rest) := by
      simp only [size_append]
      omega
    have hstop : e - size (w ++ rest) + size w = e - size rest := by
      simp only [size_append]
      omega
    rw [tokensTo, tokensFrom_word hgap hw hrest, hstart, hstop]
    rfl

/-- Blanks have no tokens, wherever the text ends. -/
theorem tokensTo_gap (h : Gap s) : tokensTo e s = [] :=
  tokensFrom_gap h

/-- A text without a word has no tokens. -/
theorem tokensTo_none (h : word? s = none) : tokensTo e s = [] :=
  tokensTo_gap (word?_eq_none_iff.1 h)

/-- The first word of a text is its first token, and the others follow. -/
theorem tokensTo_some (hs : size s ≤ e) (h : word? s = some (w, rest)) :
    tokensTo e s = ⟨String.ofList w, e - size (w ++ rest), e - size rest⟩ :: tokensTo e rest := by
  rw [tokensTo_eq hs, h]

/-- A word behind blanks is the first token, and the others follow. -/
theorem tokensTo_word {gap : List Char} (hs : size (gap ++ (w ++ rest)) ≤ e) (hgap : Gap gap)
    (hw : IsWord w) (hrest : Boundary rest) :
    tokensTo e (gap ++ (w ++ rest)) =
      ⟨String.ofList w, e - size (w ++ rest), e - size rest⟩ :: tokensTo e rest :=
  tokensTo_some hs (word?_gap_append hgap hw hrest)

/-- A text has no tokens if it is blank. -/
theorem tokensTo_eq_nil_iff (hs : size s ≤ e) : tokensTo e s = [] ↔ Gap s := by
  rw [← word?_eq_none_iff]
  cases h : word? s with
  | none => simp [tokensTo_none h]
  | some found => simp [tokensTo_some hs h]

/-- The tokens of a sentence are those of its text up to its end. -/
theorem tokenize_eq (source : String) :
    tokenize source = tokensTo (size source.toList) source.toList := by
  rw [tokensTo, Nat.sub_self]
  rfl

end Tokens

/-- A part of a sentence that ends at a byte position. -/
def Within (source : String) (e : Nat) (s : List Char) : Prop :=
  ∃ pre post, source.toList = pre ++ (s ++ post) ∧ e = size pre + size s

section Within

variable {source : String} {e : Nat} {s rest : List Char}

/-- The whole text stands in the source. -/
theorem within_source (source : String) : Within source (size source.toList) source.toList :=
  ⟨[], [], by simp, by simp⟩

/-- A tail of the source is no longer than its end allows. -/
theorem Within.size_le (h : Within source e s) : size s ≤ e := by
  obtain ⟨pre, post, -, rfl⟩ := h
  exact Nat.le_add_left _ _

/-- A tail of a tail of the source is one. -/
theorem Within.of_suffix (h : Within source e s) (hrest : rest <:+ s) : Within source e rest := by
  obtain ⟨pre, post, hsource, rfl⟩ := h
  obtain ⟨front, rfl⟩ := hrest
  exact ⟨pre ++ front, post, by simp [hsource], by simp [Nat.add_assoc]⟩

/-- What stands in front of a part ends where that part begins. -/
theorem Within.of_append {t : List Char} (h : Within source e (s ++ t)) :
    Within source (e - size t) s := by
  obtain ⟨pre, post, hsource, rfl⟩ := h
  refine ⟨pre, t ++ post, by simp [hsource], ?_⟩
  rw [size_append]
  omega

/-- What is left behind a word of a tail of the source is a tail of the source. -/
theorem Within.of_word? {w : List Char} (h : Within source e s) (hword : word? s = some (w, rest)) :
    Within source e rest := by
  obtain ⟨gap, rfl, -⟩ := word?_eq_some_iff.1 hword
  exact h.of_suffix ((List.suffix_append _ _).trans (List.suffix_append _ _))

end Within

end CourseQuery.Sentence
