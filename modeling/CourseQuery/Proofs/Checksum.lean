import CourseQuery.Checksum

/-!
# A changed byte changes the checksum

Shifting a bit out of the register loses nothing: the highest bit of the polynomial is set, so the
highest bit of the result tells whether the polynomial was added. So two registers stay different
whatever is fed to both of them, and two bytes leave one register different. `crc32_set_ne` follows:
the bytes before the changed one lead to one register, the change splits it, and the bytes behind it
cannot bring the two together again.
-/

set_option autoImplicit false

namespace CourseQuery.Checksum

variable {r s : UInt32}

/-- Shifting by one place halves a register. -/
theorem toNat_half (r : UInt32) : (r >>> 1).toNat = r.toNat / 2 := by
  rw [UInt32.toNat_shiftRight]
  exact Nat.shiftRight_eq_div_pow _ 1

/-- A register is odd if its value is. -/
theorem odd_iff : r % 2 = 1 ↔ r.toNat % 2 = 1 := by
  rw [← UInt32.toNat_inj, UInt32.toNat_mod]
  rfl

/-- The highest bit of a shifted register is the bit that was shifted out. -/
theorem testBit_shift (r : UInt32) : (shift r).toNat.testBit 31 = decide (r.toNat % 2 = 1) := by
  have hhalf : (r.toNat / 2).testBit 31 = false := by
    apply Nat.testBit_lt_two_pow
    have := r.toNat_lt
    omega
  unfold shift
  split
  · rename_i hodd
    rw [UInt32.toNat_xor, Nat.testBit_xor, toNat_half, hhalf, decide_eq_true (odd_iff.1 hodd)]
    decide
  · rename_i heven
    rw [toNat_half, hhalf, decide_eq_false (mt odd_iff.2 heven)]

/-- A step of the register can be undone. -/
theorem shift_inj : shift r = shift s ↔ r = s := by
  refine ⟨fun h => ?_, congrArg shift⟩
  have hparity : r.toNat % 2 = 1 ↔ s.toNat % 2 = 1 := by
    rw [← decide_eq_decide, ← testBit_shift, ← testBit_shift, h]
  have hhalf : r >>> 1 = s >>> 1 := by
    unfold shift at h
    by_cases hodd : r.toNat % 2 = 1
    · rw [if_pos (odd_iff.2 hodd), if_pos (odd_iff.2 (hparity.1 hodd))] at h
      exact (UInt32.xor_left_inj polynomial).1 h
    · rwa [if_neg (mt odd_iff.1 hodd), if_neg (mt odd_iff.1 (mt hparity.2 hodd))] at h
  rw [← UInt32.toNat_inj, toNat_half, toNat_half] at hhalf
  rw [← UInt32.toNat_inj]
  omega

/-- Any number of steps can be undone. -/
theorem shifts_inj (n : Nat) : shifts n r = shifts n s ↔ r = s := by
  induction n generalizing r s with
  | zero => rfl
  | succ n ih => rw [shifts, shifts, ih, shift_inj]

/-- Two registers stay different when the same byte is fed to both. -/
theorem feed_left_inj (b : UInt8) : feed r b = feed s b ↔ r = s := by
  rw [feed, feed, shifts_inj, UInt32.xor_left_inj]

/-- Two bytes leave one register different. -/
theorem feed_right_inj {a b : UInt8} : feed r a = feed r b ↔ a = b := by
  rw [feed, feed, shifts_inj, UInt32.xor_right_inj, ← UInt32.toNat_inj, UInt8.toNat_toUInt32,
    UInt8.toNat_toUInt32, UInt8.toNat_inj]

/-- Feeding the same bytes keeps registers apart. -/
theorem foldl_feed_inj (bytes : Bytes) : bytes.foldl feed r = bytes.foldl feed s ↔ r = s := by
  induction bytes generalizing r s with
  | nil => rfl
  | cons b bytes ih => rw [List.foldl_cons, List.foldl_cons, ih, feed_left_inj]

/-- Runs of bytes that differ in one byte alone have the same checksum only if they do not differ
there either. -/
theorem crc32_append_cons_inj (before after : Bytes) {a b : UInt8} :
    crc32 (before ++ a :: after) = crc32 (before ++ b :: after) ↔ a = b := by
  simp only [crc32, List.foldl_append, List.foldl_cons]
  rw [UInt32.xor_left_inj, foldl_feed_inj, feed_right_inj]

/-- Changing one byte changes the checksum. -/
theorem crc32_set_ne {bytes : Bytes} {i : Nat} (hi : i < bytes.length) {b : UInt8}
    (hb : b ≠ bytes[i]) : crc32 (bytes.set i b) ≠ crc32 bytes := by
  have hbefore : bytes = bytes.take i ++ bytes[i] :: bytes.drop (i + 1) := by
    rw [List.getElem_cons_drop, List.take_append_drop]
  have hafter : bytes.set i b = bytes.take i ++ b :: bytes.drop (i + 1) := by
    rw [List.set_eq_take_append_cons_drop, if_pos hi]
  intro h
  rw [hafter, congrArg crc32 hbefore] at h
  exact hb ((crc32_append_cons_inj _ _).1 h)

end CourseQuery.Checksum
