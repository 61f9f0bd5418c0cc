import CourseQuery.Proofs.Base64
import Mathlib.Algebra.Group.Nat.Defs

/-!
# The content of a request has one spelling

The archive of a request is decoded from its content exactly when the content, without the blanks
around it, is what encoding writes for the archive. `Canonical` says without the encoder which texts
these are: symbols of the alphabet, filled up with `=` to whole groups of four, where the last
symbol has no bits that belong to no byte. Any other content is refused.
-/

set_option autoImplicit false

namespace CourseQuery

namespace Base64

/-- Numbers below 64 as symbols, with `=` behind them up to a multiple of four, at most two of them.
A byte takes eight bits of the six that each symbol has, so every `=` leaves two bits of the last
symbol that belong to no byte; these are zero. -/
def Canonical (s : List Char) : Prop :=
  ∃ (values : List Nat) (pads : Nat),
    s = values.map symbol ++ List.replicate pads '=' ∧ (∀ v ∈ values, v < 64) ∧
      s.length % 4 = 0 ∧ pads ≤ 2 ∧ ∀ v ∈ values.getLast?, v % 4 ^ pads = 0

/-- What encoding writes is canonical. -/
theorem canonical_encodeChars (bytes : Bytes) : Canonical (encodeChars bytes) := by
  fun_induction encodeChars bytes with
  | case1 => exact ⟨[], 0, rfl, by simp, rfl, by omega, by simp⟩
  | case2 a =>
    have ha := a.toNat_lt
    refine ⟨[a.toNat / 4, a.toNat % 4 * 16], 2, rfl, ?_, by simp, by omega, ?_⟩
    · intro v hv
      simp only [List.mem_cons, List.not_mem_nil, or_false] at hv
      omega
    · intro v hv
      obtain rfl : a.toNat % 4 * 16 = v := Option.some.inj hv
      exact Nat.mul_mod_left _ _
  | case3 a b =>
    have ha := a.toNat_lt
    have hb := b.toNat_lt
    refine ⟨[a.toNat / 4, a.toNat % 4 * 16 + b.toNat / 16, b.toNat % 16 * 4], 1, rfl, ?_,
      by simp, by omega, ?_⟩
    · intro v hv
      simp only [List.mem_cons, List.not_mem_nil, or_false] at hv
      omega
    · intro v hv
      obtain rfl : b.toNat % 16 * 4 = v := Option.some.inj hv
      exact Nat.mul_mod_left _ _
  | case4 a b c rest ih =>
    have ha := a.toNat_lt
    have hb := b.toNat_lt
    have hc := c.toNat_lt
    obtain ⟨values, pads, hs, hvalues, hlength, hpads, hlast⟩ := ih
    refine ⟨a.toNat / 4 :: (a.toNat % 4 * 16 + b.toNat / 16) :: (b.toNat % 16 * 4 + c.toNat / 64) ::
      (c.toNat % 64) :: values, pads, by rw [hs]; rfl, ?_, ?_, hpads, ?_⟩
    · simp only [List.forall_mem_cons]
      exact ⟨by omega, by omega, by omega, by omega, hvalues⟩
    · simp only [List.length_cons]
      omega
    · cases values with
      | nil =>
        -- nothing is hidden behind a whole group
        have hzero : pads = 0 := by
          rw [hs, List.map_nil, List.nil_append, List.length_replicate] at hlength
          omega
        rw [hzero]
        intro v _
        exact Nat.mod_one v
      | cons v values => exact hlast

/-- A canonical text is what encoding writes for some bytes. -/
theorem exists_encodeChars {s : List Char} (h : Canonical s) : ∃ bytes, encodeChars bytes = s := by
  obtain ⟨values, pads, rfl, hvalues, hlength, hpads, hlast⟩ := h
  rw [List.length_append, List.length_map, List.length_replicate] at hlength
  induction hn : values.length using Nat.strongRecOn generalizing values with
  | ind n ih =>
    match values with
    | [] =>
      obtain rfl : pads = 0 := by
        rw [List.length_nil] at hlength
        omega
      exact ⟨[], rfl⟩
    | [i] =>
      rw [List.length_singleton] at hlength
      omega
    | [i, j] =>
      obtain rfl : pads = 2 := by
        simp only [List.length_cons, List.length_nil] at hlength
        omega
      simp only [List.forall_mem_cons] at hvalues
      exact ⟨_, encodeChars_one hvalues.1 hvalues.2.1 (hlast j rfl)⟩
    | [i, j, k] =>
      obtain rfl : pads = 1 := by
        simp only [List.length_cons, List.length_nil] at hlength
        omega
      simp only [List.forall_mem_cons] at hvalues
      exact ⟨_, encodeChars_two hvalues.1 hvalues.2.1 hvalues.2.2.1 (hlast k rfl)⟩
    | i :: j :: k :: l :: values =>
      simp only [List.forall_mem_cons] at hvalues
      obtain ⟨hi, hj, hk, hl, hvalues⟩ := hvalues
      have hmore : ∀ v ∈ values.getLast?, v % 4 ^ pads = 0 := by
        cases values with
        | nil => simp
        | cons v values => exact hlast
      simp only [List.length_cons] at hlength hn
      obtain ⟨bytes, hbytes⟩ := ih values.length (by omega) values hvalues (by omega) hmore rfl
      refine ⟨_, (encodeChars_three hi hj hk hl bytes).trans ?_⟩
      rw [hbytes]
      rfl

/-- The canonical texts are those that encoding writes. -/
theorem canonical_iff {s : String} : Canonical s.toList ↔ ∃ bytes, s = encode bytes := by
  constructor
  · intro h
    obtain ⟨bytes, hbytes⟩ := exists_encodeChars h
    exact ⟨bytes, by rw [encode, hbytes, String.ofList_toList]⟩
  · rintro ⟨bytes, rfl⟩
    rw [encode, String.toList_ofList]
    exact canonical_encodeChars bytes

end Base64

namespace Service

/-- A content is decoded as an archive exactly when it is the encoding of the archive, with blanks
around it or not. -/
theorem decodeContent_eq_ok_iff {content : String} {archive : Bytes} :
    decodeContent content = .ok archive ↔ Text.trim content = Base64.encode archive := by
  rw [← Base64.decode?_eq_some_iff, decodeContent]
  cases Base64.decode? (Text.trim content) with
  | none => simp
  | some bytes => simp

/-- A content that is not decoded is to blame for the failed import. -/
theorem refused_iff {content : String} :
    (∃ e, decodeContent content = .error e ∧ e.code = .importError) ↔
      ∀ archive, decodeContent content ≠ .ok archive := by
  unfold decodeContent
  cases Base64.decode? (Text.trim content) with
  | none => simp [Error.code]
  | some bytes => simp

/-- Contents have one spelling: what is decoded as an archive is its encoding, the encoding of every
archive is decoded as it, and every other text is refused. The encodings are the canonical texts, so
what is refused are texts with too much or too little padding, with bits behind the last byte, or
with a blank or another character that is no symbol in them. -/
theorem content_has_one_spelling (content : String) (archive : Bytes) :
    (decodeContent content = .ok archive ↔ Text.trim content = Base64.encode archive) ∧
      decodeContent (Base64.encode archive) = .ok archive ∧
      ((∃ e, decodeContent content = .error e ∧ e.code = .importError) ↔
        ∀ bytes, Text.trim content ≠ Base64.encode bytes) ∧
      ((∃ bytes, Text.trim content = Base64.encode bytes) ↔
        Base64.Canonical (Text.trim content).toList) := by
  refine ⟨decodeContent_eq_ok_iff, decodeContent_encode archive, ?_, Base64.canonical_iff.symm⟩
  rw [refused_iff]
  apply forall_congr'
  intro bytes
  exact not_congr decodeContent_eq_ok_iff

end Service

end CourseQuery
