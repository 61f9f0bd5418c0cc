import CourseQuery.Base64
import CourseQuery.Proofs.Text.Blank
import CourseQuery.Proofs.Text.Utf8
import CourseQuery.Service.Request

/-!
# Base 64 reads back

Whatever bytes are encoded, decoding gives them again: each group of three bytes is a group of four
symbols that is decoded alone, and the last group tells by its padding how many bytes it holds. The
other way round, symbols that are decoded are those of the bytes that they give.
-/

set_option autoImplicit false

namespace CourseQuery

namespace Base64

open Text.Utf8 (toNat_ofNat)

/-- A symbol has the value that it stands for. -/
theorem value?_symbol : ∀ n < 64, value? (symbol n) = some n := by decide

/-- The padding has no value. -/
theorem value?_pad : value? '=' = none := by decide

/-- No symbol is blank. -/
theorem isBlank_symbol : ∀ n < 64, Text.isBlank (symbol n) = false := by decide

/-- A group of symbols without padding is decoded in front of what follows it. -/
theorem decodeChars_group {a b c d : Char} {rest : List Char} {group bytes : Bytes}
    (hgroup : decodeFull a b c d = some group) (hrest : decodeChars rest = some bytes) :
    decodeChars (a :: b :: c :: d :: rest) = some (group ++ bytes) := by
  cases rest with
  | nil =>
    obtain rfl : [] = bytes := Option.some.inj hrest
    unfold decodeFull at hgroup
    split at hgroup
    · rename_i ha hb hc hd
      simp only [decodeChars, decodeLast, ha, hb, hc, hd, hgroup, List.append_nil]
    · contradiction
  | cons e rest => simp only [decodeChars, hgroup, hrest]

/-- A number is made into the byte whose value it is. -/
theorem ofNat_eq {n : Nat} {a : UInt8} (h : n = a.toNat) : UInt8.ofNat n = a := by
  rw [h, UInt8.ofNat_toNat]

/-- Bytes are read back from their symbols. -/
theorem decodeChars_encodeChars (bytes : Bytes) : decodeChars (encodeChars bytes) = some bytes := by
  fun_induction encodeChars bytes with
  | case1 => rfl
  | case2 a =>
    have ha := a.toNat_lt
    have hzero : a.toNat % 4 * 16 % 16 = 0 := Nat.mul_mod_left _ _
    simp only [decodeChars, decodeLast, value?_symbol (a.toNat / 4) (by omega),
      value?_symbol (a.toNat % 4 * 16) (by omega), value?_pad, hzero, and_self, if_true]
    rw [ofNat_eq (a := a) (by omega)]
  | case3 a b =>
    have ha := a.toNat_lt
    have hb := b.toNat_lt
    have hzero : b.toNat % 16 * 4 % 4 = 0 := Nat.mul_mod_left _ _
    simp only [decodeChars, decodeLast, value?_symbol (a.toNat / 4) (by omega),
      value?_symbol (a.toNat % 4 * 16 + b.toNat / 16) (by omega),
      value?_symbol (b.toNat % 16 * 4) (by omega), value?_pad, hzero, and_self, if_true]
    rw [ofNat_eq (a := a) (by omega), ofNat_eq (a := b) (by omega)]
  | case4 a b c rest ih =>
    have ha := a.toNat_lt
    have hb := b.toNat_lt
    have hc := c.toNat_lt
    have hgroup : decodeFull (symbol (a.toNat / 4)) (symbol (a.toNat % 4 * 16 + b.toNat / 16))
        (symbol (b.toNat % 16 * 4 + c.toNat / 64)) (symbol (c.toNat % 64)) = some [a, b, c] := by
      simp only [decodeFull, value?_symbol (a.toNat / 4) (by omega),
        value?_symbol (a.toNat % 4 * 16 + b.toNat / 16) (by omega),
        value?_symbol (b.toNat % 16 * 4 + c.toNat / 64) (by omega),
        value?_symbol (c.toNat % 64) (by omega)]
      rw [ofNat_eq (a := a) (by omega), ofNat_eq (a := b) (by omega), ofNat_eq (a := c) (by omega)]
    exact decodeChars_group hgroup ih

/-- No symbol is blank. -/
theorem isBlank_encodeChars (bytes : Bytes) : ∀ s ∈ encodeChars bytes, Text.isBlank s = false := by
  have hpad : Text.isBlank '=' = false := by decide
  fun_induction encodeChars bytes with
  | case1 => simp
  | case2 a =>
    have ha := a.toNat_lt
    simp [hpad, isBlank_symbol (a.toNat / 4) (by omega),
      isBlank_symbol (a.toNat % 4 * 16) (by omega)]
  | case3 a b =>
    have ha := a.toNat_lt
    have hb := b.toNat_lt
    simp [hpad, isBlank_symbol (a.toNat / 4) (by omega),
      isBlank_symbol (a.toNat % 4 * 16 + b.toNat / 16) (by omega),
      isBlank_symbol (b.toNat % 16 * 4) (by omega)]
  | case4 a b c rest ih =>
    have ha := a.toNat_lt
    have hb := b.toNat_lt
    have hc := c.toNat_lt
    simp only [List.forall_mem_cons, isBlank_symbol (a.toNat / 4) (by omega),
      isBlank_symbol (a.toNat % 4 * 16 + b.toNat / 16) (by omega),
      isBlank_symbol (b.toNat % 16 * 4 + c.toNat / 64) (by omega),
      isBlank_symbol (c.toNat % 64) (by omega), true_and]
    exact ih

/-! ## One spelling -/

section Groups

variable {a b c d : Char} {i j k l : Nat} {group : Bytes}

/-- A character that has a number is the symbol of that number. -/
theorem symbol_of_value? {n : Nat} (h : value? c = some n) : n < 64 ∧ symbol n = c := by
  have hchar : ∀ m, m = c.toNat → Char.ofNat m = c := by
    intro m hm
    rw [hm, Char.ofNat_toNat]
  simp only [value?, Char.reduceToNat] at h
  split at h
  · obtain rfl := Option.some.inj h
    refine ⟨by omega, ?_⟩
    rw [symbol, if_pos (by omega), hchar _ (by simp only [Char.reduceToNat]; omega)]
  · split at h
    · obtain rfl := Option.some.inj h
      refine ⟨by omega, ?_⟩
      rw [symbol, if_neg (by omega), if_pos (by omega),
        hchar _ (by simp only [Char.reduceToNat]; omega)]
    · split at h
      · obtain rfl := Option.some.inj h
        refine ⟨by omega, ?_⟩
        rw [symbol, if_neg (by omega), if_neg (by omega), if_pos (by omega),
          hchar _ (by simp only [Char.reduceToNat]; omega)]
      · split at h
        · obtain rfl := Option.some.inj h
          exact ⟨by decide, ‹c = '+'›.symm⟩
        · split at h
          · obtain rfl := Option.some.inj h
            exact ⟨by decide, ‹c = '/'›.symm⟩
          · contradiction

/-- The bytes that four numbers make up have the symbols of these numbers. -/
theorem encodeChars_three (hi : i < 64) (hj : j < 64) (hk : k < 64) (hl : l < 64) (rest : Bytes) :
    encodeChars (UInt8.ofNat (i * 4 + j / 16) :: UInt8.ofNat (j % 16 * 16 + k / 4) ::
        UInt8.ofNat (k % 4 * 64 + l) :: rest) =
      symbol i :: symbol j :: symbol k :: symbol l :: encodeChars rest := by
  have h₁ : (i * 4 + j / 16) / 4 = i := by omega
  have h₂ : (i * 4 + j / 16) % 4 * 16 + (j % 16 * 16 + k / 4) / 16 = j := by omega
  have h₃ : (j % 16 * 16 + k / 4) % 16 * 4 + (k % 4 * 64 + l) / 64 = k := by omega
  have h₄ : (k % 4 * 64 + l) % 64 = l := by omega
  rw [encodeChars, toNat_ofNat (by omega), toNat_ofNat (by omega), toNat_ofNat (by omega), h₁, h₂,
    h₃, h₄]

/-- Two bytes are spelled by three symbols, of which the last is even in its lowest two bits. -/
theorem encodeChars_two (hi : i < 64) (hj : j < 64) (hk : k < 64) (hzero : k % 4 = 0) :
    encodeChars [UInt8.ofNat (i * 4 + j / 16), UInt8.ofNat (j % 16 * 16 + k / 4)] =
      [symbol i, symbol j, symbol k, '='] := by
  have h₁ : (i * 4 + j / 16) / 4 = i := by omega
  have h₂ : (i * 4 + j / 16) % 4 * 16 + (j % 16 * 16 + k / 4) / 16 = j := by omega
  have h₃ : (j % 16 * 16 + k / 4) % 16 * 4 = k := by omega
  rw [encodeChars, toNat_ofNat (by omega), toNat_ofNat (by omega), h₁, h₂, h₃]

/-- One byte is spelled by two symbols, of which the last is even in its lowest four bits. -/
theorem encodeChars_one (hi : i < 64) (hj : j < 64) (hzero : j % 16 = 0) :
    encodeChars [UInt8.ofNat (i * 4 + j / 16)] = [symbol i, symbol j, '=', '='] := by
  have h₁ : (i * 4 + j / 16) / 4 = i := by omega
  have h₂ : (i * 4 + j / 16) % 4 * 16 = j := by omega
  rw [encodeChars, toNat_ofNat (by omega), h₁, h₂]

/-- What four symbols spell is spelled by them, in front of anything. -/
theorem encodeChars_of_decodeFull (h : decodeFull a b c d = some group) (rest : Bytes) :
    encodeChars (group ++ rest) = a :: b :: c :: d :: encodeChars rest := by
  unfold decodeFull at h
  split at h
  · rename_i i j k l hi hj hk hl
    obtain rfl := Option.some.inj h
    obtain ⟨hi64, rfl⟩ := symbol_of_value? hi
    obtain ⟨hj64, rfl⟩ := symbol_of_value? hj
    obtain ⟨hk64, rfl⟩ := symbol_of_value? hk
    obtain ⟨hl64, rfl⟩ := symbol_of_value? hl
    exact encodeChars_three hi64 hj64 hk64 hl64 rest
  · contradiction

/-- A last group that is decoded is padded as its bytes are, and hides no bits. -/
theorem encodeChars_of_decodeLast (h : decodeLast a b c d = some group) :
    encodeChars group = [a, b, c, d] := by
  unfold decodeLast at h
  split at h
  · rename_i i j k l hi hj hk hl
    obtain rfl := Option.some.inj h
    obtain ⟨hi64, rfl⟩ := symbol_of_value? hi
    obtain ⟨hj64, rfl⟩ := symbol_of_value? hj
    obtain ⟨hk64, rfl⟩ := symbol_of_value? hk
    obtain ⟨hl64, rfl⟩ := symbol_of_value? hl
    exact encodeChars_three hi64 hj64 hk64 hl64 []
  · rename_i i j k hi hj hk _
    split at h
    · rename_i hpad
      obtain ⟨rfl, hzero⟩ := hpad
      obtain rfl := Option.some.inj h
      obtain ⟨hi64, rfl⟩ := symbol_of_value? hi
      obtain ⟨hj64, rfl⟩ := symbol_of_value? hj
      obtain ⟨hk64, rfl⟩ := symbol_of_value? hk
      exact encodeChars_two hi64 hj64 hk64 hzero
    · contradiction
  · rename_i i j hi hj _ _
    split at h
    · rename_i hpad
      obtain ⟨rfl, rfl, hzero⟩ := hpad
      obtain rfl := Option.some.inj h
      obtain ⟨hi64, rfl⟩ := symbol_of_value? hi
      obtain ⟨hj64, rfl⟩ := symbol_of_value? hj
      exact encodeChars_one hi64 hj64 hzero
    · contradiction
  · contradiction

end Groups

/-- Symbols that spell bytes are the symbols of these bytes. -/
theorem encodeChars_of_decodeChars {s : List Char} {bytes : Bytes}
    (h : decodeChars s = some bytes) : encodeChars bytes = s := by
  fun_induction decodeChars s generalizing bytes with
  | case1 =>
    obtain rfl := Option.some.inj h
    rfl
  | case2 a b c d => exact encodeChars_of_decodeLast h
  | case3 a b c d rest _ bytes' group hbytes hgroup ih =>
    obtain rfl := Option.some.inj h
    rw [encodeChars_of_decodeFull hgroup, ih hbytes]
  | case4 => contradiction
  | case5 => contradiction

/-- A text is decoded as bytes exactly when it is their encoding. -/
theorem decode?_eq_some_iff {s : String} {bytes : Bytes} :
    decode? s = some bytes ↔ s = encode bytes := by
  constructor
  · intro h
    rw [encode, encodeChars_of_decodeChars h, String.ofList_toList]
  · rintro rfl
    rw [decode?, encode, String.toList_ofList, decodeChars_encodeChars]

end Base64

/-- The archive is read back from the content of a request. -/
theorem Service.decodeContent_encode (archive : Bytes) :
    decodeContent (Base64.encode archive) = .ok archive := by
  have htrim : Text.trim (Base64.encode archive) = Base64.encode archive := by
    rw [Base64.encode, Text.trim_of_not_blank (Base64.isBlank_encodeChars archive)]
  have hdecode : Base64.decode? (Base64.encode archive) = some archive :=
    Base64.decode?_eq_some_iff.2 rfl
  simp only [decodeContent, htrim, hdecode]

end CourseQuery
