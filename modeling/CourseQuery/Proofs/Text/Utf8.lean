import CourseQuery.Proofs.Steps
import CourseQuery.Text.Utf8
import Mathlib.Tactic.SplitIfs

/-!
# UTF-8 reads back and keeps the order

Decoding the bytes of a text gives the text again, since the bytes of each character are read back
as the character, whatever follows them, and no other bytes are read as a character. The order of
texts by their characters is also the order by their bytes: of two different characters the smaller
one has the smaller byte at the first place where their bytes differ.
-/

set_option autoImplicit false

namespace CourseQuery.Text.Utf8

/-! ## Sizes -/

/-- The empty text takes no bytes. -/
@[simp]
theorem size_nil : size [] = 0 := rfl

/-- A text takes the bytes of its first character and those of the rest. -/
@[simp]
theorem size_cons (c : Char) (s : List Char) : size (c :: s) = c.utf8Size + size s := rfl

/-- Two texts take the bytes of both. -/
@[simp]
theorem size_append (s t : List Char) : size (s ++ t) = size s + size t := by
  induction s with
  | nil => simp
  | cons c s ih => simp [ih, Nat.add_assoc]

/-- A text that is not empty takes a byte. -/
theorem size_pos {s : List Char} (h : s ≠ []) : 0 < size s := by
  cases s with
  | nil => contradiction
  | cons c s =>
    have hc := c.utf8Size_pos
    rw [size_cons]
    omega

/-! ## Reading back -/

/-- A number below 256 is the value of its byte. -/
theorem toNat_ofNat {n : Nat} (h : n < 256) : (UInt8.ofNat n).toNat = n :=
  UInt8.toNat_ofNat_of_lt' h

/-- A continuation byte in its range adds six bits to the character that is read. -/
theorem follow_succ {more low high bits k : Nat} {rest : List UInt8} (hk : k < 256)
    (hlow : low ≤ k) (hhigh : k ≤ high) :
    follow (more + 1) low high bits (UInt8.ofNat k :: rest) =
      follow more 0x80 0xBF (bits * 64 + (k - 0x80)) rest := by
  rw [follow, toNat_ofNat hk, if_pos ⟨hlow, hhigh⟩]

/-- The code of a character is no surrogate. -/
theorem toNat_valid (c : Char) : c.toNat < 0xD800 ∨ 0xDFFF < c.toNat ∧ c.toNat < 0x110000 :=
  c.valid

/-- The bytes of a character are read back as the character, whatever follows them. -/
theorem next_encodeChar (c : Char) :
    ∃ b tail, encodeChar c = b :: tail ∧ ∀ rest, next b (tail ++ rest) = (some c, rest) := by
  have hvalid := toNat_valid c
  have hread : ∀ n, n = c.toNat → Char.ofNat n = c := fun n h => h ▸ Char.ofNat_toNat c
  unfold encodeChar
  dsimp only
  split
  · refine ⟨_, _, rfl, fun rest => ?_⟩
    simp only [next, toNat_ofNat (show c.toNat < 256 by omega), List.nil_append]
    rw [if_pos (by omega), hread _ rfl]
  · split
    · refine ⟨_, _, rfl, fun rest => ?_⟩
      simp only [next, toNat_ofNat (show 0xC0 + c.toNat / 64 < 256 by omega), List.cons_append,
        List.nil_append]
      rw [if_neg (by omega), if_neg (by omega), if_pos (by omega),
        follow_succ (by omega) (by omega) (by omega), follow, hread _ (by omega)]
    · split
      · refine ⟨_, _, rfl, fun rest => ?_⟩
        simp only [next, toNat_ofNat (show 0xE0 + c.toNat / 4096 < 256 by omega),
          List.cons_append, List.nil_append]
        rw [if_neg (by omega), if_neg (by omega), if_neg (by omega), if_pos (by omega),
          follow_succ (by omega) (by split <;> omega) (by split <;> omega),
          follow_succ (by omega) (by omega) (by omega), follow, hread _ (by omega)]
      · refine ⟨_, _, rfl, fun rest => ?_⟩
        simp only [next, toNat_ofNat (show 0xF0 + c.toNat / 262144 < 256 by omega),
          List.cons_append, List.nil_append]
        rw [if_neg (by omega), if_neg (by omega), if_neg (by omega), if_neg (by omega),
          if_pos (by omega), follow_succ (by omega) (by split <;> omega) (by split <;> omega),
          follow_succ (by omega) (by omega) (by omega),
          follow_succ (by omega) (by omega) (by omega), follow, hread _ (by omega)]

/-- Reading the bytes of characters passes the characters one after another. -/
theorem steps_encode (s : List Char) (seen : List (Option Char)) :
    steps seen (s.flatMap encodeChar) = seen.reverse ++ s.map some := by
  induction s generalizing seen with
  | nil => simp [steps]
  | cons c s ih =>
    obtain ⟨b, tail, hbytes, hnext⟩ := next_encodeChar c
    rw [List.flatMap_cons, hbytes, List.cons_append, steps, hnext]
    simp [ih]

/-! ## Bytes that are text -/

/-- A number that is no surrogate is the code of its character. -/
theorem toNat_char_ofNat {n : Nat} (h : n < 0xD800 ∨ 0xDFFF < n ∧ n < 0x110000) :
    (Char.ofNat n).toNat = n := by
  have hvalid : n.isValidChar := h
  rw [Char.ofNat, dif_pos hvalid]
  rfl

/-- When no byte is to follow the character is complete. -/
theorem follow_zero_eq_some_iff {low high bits : Nat} {bytes rest : List UInt8} {c : Char} :
    follow 0 low high bits bytes = (some c, rest) ↔ Char.ofNat bits = c ∧ bytes = rest := by
  rw [follow, Prod.mk.injEq, Option.some.injEq]

/-- The first of the continuation bytes of a character is in its range. -/
theorem of_follow_succ {more low high bits : Nat} {bytes rest : List UInt8} {c : Char}
    (h : follow (more + 1) low high bits bytes = (some c, rest)) :
    ∃ k tail, bytes = UInt8.ofNat k :: tail ∧ low ≤ k ∧ k ≤ high ∧
      follow more 0x80 0xBF (bits * 64 + (k - 0x80)) tail = (some c, rest) := by
  cases bytes with
  | nil => exact absurd (congrArg Prod.fst h) nofun
  | cons b tail =>
    rw [follow] at h
    split at h
    · rename_i hrange
      exact ⟨b.toNat, tail, by rw [UInt8.ofNat_toNat], hrange.1, hrange.2, h⟩
    · exact absurd (congrArg Prod.fst h) nofun

/-- A character that is read is one whose bytes were there. -/
theorem encodeChar_of_next {b : UInt8} {bytes rest : List UInt8} {c : Char}
    (h : next b bytes = (some c, rest)) : b :: bytes = encodeChar c ++ rest := by
  have hb := b.toNat_lt
  have hfirst : b = UInt8.ofNat b.toNat := by rw [UInt8.ofNat_toNat]
  dsimp only [next] at h
  generalize b.toNat = n at hb hfirst h
  subst hfirst
  split at h
  · obtain ⟨hc, rfl⟩ := Prod.mk.inj h
    obtain rfl := Option.some.inj hc
    rw [encodeChar, toNat_char_ofNat (by omega), if_pos (by omega)]
    rfl
  · split at h
    · exact absurd (congrArg Prod.fst h) nofun
    · split at h
      · obtain ⟨k, tail, rfl, hlow, hhigh, h⟩ := of_follow_succ h
        obtain ⟨rfl, rfl⟩ := follow_zero_eq_some_iff.1 h
        rw [encodeChar, toNat_char_ofNat (by omega), if_neg (by omega), if_pos (by omega)]
        have h₁ : 0xC0 + ((n - 0xC0) * 64 + (k - 0x80)) / 64 = n := by omega
        have h₂ : 0x80 + ((n - 0xC0) * 64 + (k - 0x80)) % 64 = k := by omega
        rw [h₁, h₂]
        rfl
      · split at h
        · obtain ⟨k, tail, rfl, hlow, hhigh, h⟩ := of_follow_succ h
          obtain ⟨l, tail, rfl, hlow', hhigh', h⟩ := of_follow_succ h
          obtain ⟨rfl, rfl⟩ := follow_zero_eq_some_iff.1 h
          have hlow : 0x80 ≤ k ∧ (n = 0xE0 → 0xA0 ≤ k) := by split at hlow <;> omega
          have hhigh : k ≤ 0xBF ∧ (n = 0xED → k ≤ 0x9F) := by split at hhigh <;> omega
          generalize hv : ((n - 0xE0) * 64 + (k - 0x80)) * 64 + (l - 0x80) = v
          have hvalid : v < 0xD800 ∨ 0xDFFF < v ∧ v < 0x110000 := by omega
          have h₁ : 0xE0 + v / 4096 = n := by omega
          have h₂ : 0x80 + v / 64 % 64 = k := by omega
          have h₃ : 0x80 + v % 64 = l := by omega
          rw [encodeChar, toNat_char_ofNat hvalid, if_neg (by omega), if_neg (by omega),
            if_pos (by omega), h₁, h₂, h₃]
          rfl
        · split at h
          · obtain ⟨k, tail, rfl, hlow, hhigh, h⟩ := of_follow_succ h
            obtain ⟨l, tail, rfl, hlow', hhigh', h⟩ := of_follow_succ h
            obtain ⟨m, tail, rfl, hlow'', hhigh'', h⟩ := of_follow_succ h
            obtain ⟨rfl, rfl⟩ := follow_zero_eq_some_iff.1 h
            have hlow : 0x80 ≤ k ∧ (n = 0xF0 → 0x90 ≤ k) := by split at hlow <;> omega
            have hhigh : k ≤ 0xBF ∧ (n = 0xF4 → k ≤ 0x8F) := by split at hhigh <;> omega
            generalize hv :
              (((n - 0xF0) * 64 + (k - 0x80)) * 64 + (l - 0x80)) * 64 + (m - 0x80) = v
            have hvalid : v < 0xD800 ∨ 0xDFFF < v ∧ v < 0x110000 := by omega
            have h₁ : 0xF0 + v / 262144 = n := by omega
            have h₂ : 0x80 + v / 4096 % 64 = k := by omega
            have h₃ : 0x80 + v / 64 % 64 = l := by omega
            have h₄ : 0x80 + v % 64 = m := by omega
            rw [encodeChar, toNat_char_ofNat hvalid, if_neg (by omega), if_neg (by omega),
              if_neg (by omega), h₁, h₂, h₃, h₄]
            rfl
          · exact absurd (congrArg Prod.fst h) nofun

/-- What was read stays in front. -/
theorem prefix_steps (seen : List (Option Char)) (bytes : List UInt8) :
    seen.reverse <+: steps seen bytes := by
  fun_induction steps seen bytes with
  | case1 => exact List.prefix_rfl
  | case2 seen b rest _ ih =>
    rw [List.reverse_cons] at ih
    exact (List.prefix_append _ _).trans ih

/-- Bytes that are read as characters are those of the characters. -/
theorem eq_flatMap_of_steps {seen : List (Option Char)} {bytes : List UInt8} {s : List Char}
    (h : steps seen bytes = seen.reverse ++ s.map some) : bytes = s.flatMap encodeChar := by
  fun_induction steps seen bytes generalizing s with
  | case1 =>
    rw [List.self_eq_append_right, List.map_eq_nil_iff] at h
    rw [h, List.flatMap_nil]
  | case2 seen b rest _ ih =>
    obtain ⟨more, hmore⟩ := prefix_steps ((next b rest).1 :: seen) (next b rest).2
    have hs : s.map some = (next b rest).1 :: more := by
      rw [← hmore, List.reverse_cons, List.append_assoc, List.append_cancel_left_eq] at h
      exact h.symm
    obtain ⟨c, s, rfl, hc, -⟩ := List.map_eq_cons_iff.1 hs
    rw [List.flatMap_cons, ← ih (by rw [h, ← hc]; simp),
      ← encodeChar_of_next (Prod.ext hc.symm rfl)]

/-- Bytes are those of a text exactly when they are decoded as it. -/
theorem decode?_eq_some_iff {bytes : List UInt8} {s : String} :
    decode? bytes = some s ↔ bytes = encode s := by
  unfold decode?
  rw [Option.map_eq_some_iff]
  constructor
  · rintro ⟨chars, hchars, rfl⟩
    rw [encode, String.toList_ofList]
    rw [mapM_eq_some_iff, List.map_id] at hchars
    exact eq_flatMap_of_steps hchars
  · rintro rfl
    refine ⟨s.toList, ?_, String.ofList_toList⟩
    rw [mapM_eq_some_iff, List.map_id]
    exact steps_encode s.toList []

/-- A text is decoded from its bytes. -/
theorem decode?_encode (s : String) : decode? (encode s) = some s :=
  decode?_eq_some_iff.2 rfl

/-- A text is decoded from its bytes without a loss. -/
theorem decodeLossy_encode (s : String) : decodeLossy (encode s) = s := by
  have hchars : (steps [] (encode s)).map (fun c => c.getD replacement) = s.toList := by
    rw [encode, steps_encode, List.reverse_nil, List.nil_append, List.map_map]
    exact List.map_id s.toList
  rw [decodeLossy, hchars, String.ofList_toList]

/-! ## The order of bytes -/

/-- The first byte decides the order of two runs of bytes unless it is the same in both. -/
theorem ofNat_cons_lt {m n : Nat} {u v : List UInt8} (hm : m < 256) (hn : n < 256)
    (h : m < n ∨ m = n ∧ u < v) : UInt8.ofNat m :: u < UInt8.ofNat n :: v := by
  rw [List.cons_lt_cons_iff, UInt8.lt_iff_toNat_lt, ← UInt8.toNat_inj, toNat_ofNat hm,
    toNat_ofNat hn]
  exact h

/-- Of two characters the smaller one has the smaller bytes, whatever follows them. Characters of
different length differ in their first bytes already. -/
theorem encodeChar_append_lt {c d : Char} (h : c < d) (u v : List UInt8) :
    encodeChar c ++ u < encodeChar d ++ v := by
  have hlt : c.toNat < d.toNat := h
  have hc := toNat_valid c
  have hd := toNat_valid d
  unfold encodeChar
  dsimp only
  generalize c.toNat = m at *
  generalize d.toNat = n at *
  have hlast : m / 64 = n / 64 →
      UInt8.ofNat (0x80 + m % 64) :: u < UInt8.ofNat (0x80 + n % 64) :: v := fun _ =>
    ofNat_cons_lt (by omega) (by omega) (Or.inl (by omega))
  have hmiddle : m / 4096 = n / 4096 →
      UInt8.ofNat (0x80 + m / 64 % 64) :: UInt8.ofNat (0x80 + m % 64) :: u <
        UInt8.ofNat (0x80 + n / 64 % 64) :: UInt8.ofNat (0x80 + n % 64) :: v := fun _ => by
    refine ofNat_cons_lt (by omega) (by omega) ?_
    rcases (show m / 64 < n / 64 ∨ m / 64 = n / 64 by omega) with hq | hq
    · exact Or.inl (by omega)
    · exact Or.inr ⟨by omega, hlast hq⟩
  -- what is left are the pairs of one length of two, three or four bytes
  split_ifs <;> try exact ofNat_cons_lt (by omega) (by omega) (Or.inl (by omega))
  · refine ofNat_cons_lt (by omega) (by omega) ?_
    rcases (show m / 64 < n / 64 ∨ m / 64 = n / 64 by omega) with hq | hq
    · exact Or.inl (by omega)
    · exact Or.inr ⟨by omega, hlast hq⟩
  · refine ofNat_cons_lt (by omega) (by omega) ?_
    rcases (show m / 4096 < n / 4096 ∨ m / 4096 = n / 4096 by omega) with hq | hq
    · exact Or.inl (by omega)
    · exact Or.inr ⟨by omega, hmiddle hq⟩
  · refine ofNat_cons_lt (by omega) (by omega) ?_
    rcases (show m / 262144 < n / 262144 ∨ m / 262144 = n / 262144 by omega) with hq | hq
    · exact Or.inl (by omega)
    · refine Or.inr ⟨by omega, ofNat_cons_lt (by omega) (by omega) ?_⟩
      rcases (show m / 4096 < n / 4096 ∨ m / 4096 = n / 4096 by omega) with hr | hr
      · exact Or.inl (by omega)
      · exact Or.inr ⟨by omega, hmiddle hr⟩

/-- The bytes of a lesser text are less. -/
theorem flatMap_encodeChar_lt {s t : List Char} (h : s < t) :
    s.flatMap encodeChar < t.flatMap encodeChar := by
  induction s generalizing t with
  | nil =>
    cases t with
    | nil => exact absurd h (List.lt_irrefl [])
    | cons d t =>
      obtain ⟨b, tail, hbytes, -⟩ := next_encodeChar d
      rw [List.flatMap_cons, hbytes]
      exact List.nil_lt_cons _ _
  | cons c s ih =>
    cases t with
    | nil => exact absurd h (List.not_lt_nil _)
    | cons d t =>
      rw [List.flatMap_cons, List.flatMap_cons]
      rcases List.cons_lt_cons_iff.1 h with hcd | ⟨rfl, hst⟩
      · exact encodeChar_append_lt hcd _ _
      · exact List.append_left_lt (ih hst)

/-- Texts are in the order of their bytes. -/
theorem encode_lt_encode_iff {s t : String} : encode s < encode t ↔ s < t := by
  rw [String.lt_iff]
  constructor
  · intro h
    rcases Std.lt_trichotomy s.toList t.toList with hst | hst | hst
    · exact hst
    · rw [encode, encode, hst] at h
      exact absurd h (List.lt_irrefl _)
    · exact absurd (flatMap_encodeChar_lt hst) (List.lt_asymm h)
  · exact flatMap_encodeChar_lt

/-- The order of bytes is the order of texts. -/
theorem encode_le_encode_iff {s t : String} : encode s ≤ encode t ↔ s ≤ t := by
  rw [← List.not_lt, encode_lt_encode_iff, String.not_lt]

end CourseQuery.Text.Utf8
