import CourseQuery.Archive.Tar
import CourseQuery.Proofs.Archive.Fields
import CourseQuery.Proofs.Text.Blank

/-!
# Tar archives read back

`Holds` is the form of a tar archive of plain files with headers that keep the directory apart. Of a
header it settles the fields that matter: the name, the size in either way of writing it, the
checksum, the type and the signature. What else a header says (the mode, the owner, the time) and
what is behind the end of the archive is left open. Every archive of the form is read as the files
it holds.
-/

set_option autoImplicit false

namespace CourseQuery.Tar

open Archive (Entry PlainPath)

/-! ## Numbers -/

/-- The digits of a number in base eight, at least `count` of them. -/
def octalChars (count n : Nat) : List Char :=
  List.replicate (count - (Nat.toDigits 8 n).length) '0' ++ Nat.toDigits 8 n

/-- The digits of a field are the characters that spell it. -/
theorem octalDigits_eq (count n : Nat) :
    octalDigits count n = (octalChars count n).map fun c => UInt8.ofNat c.toNat := by
  rw [octalDigits, octalChars, List.map_append, List.map_replicate, List.length_map]

/-- A digit to the base 8 lies between 0 and 7. -/
theorem mem_toDigits {n : Nat} {c : Char} (h : c ∈ Nat.toDigits 8 n) : '0' ≤ c ∧ c ≤ '7' := by
  have hdigit : ∀ d < 8, '0' ≤ Nat.digitChar d ∧ Nat.digitChar d ≤ '7' := by decide
  induction n using Nat.strongRecOn with
  | ind n ih =>
    rw [Nat.toDigits_eq_if (by decide)] at h
    split at h
    · rename_i hn
      rw [List.mem_singleton.1 h]
      exact hdigit n hn
    · rcases List.mem_append.1 h with h | h
      · exact ih (n / 8) (by omega) h
      · rw [List.mem_singleton.1 h]
        exact hdigit (n % 8) (by omega)

/-- The characters of a padded number are octal digits. -/
theorem mem_octalChars {count n : Nat} {c : Char} (h : c ∈ octalChars count n) :
    '0' ≤ c ∧ c ≤ '7' := by
  rcases List.mem_append.1 h with h | h
  · rw [List.eq_of_mem_replicate h]
    decide
  · exact mem_toDigits h

/-- Even 0 is spelled with a digit. -/
theorem octalChars_ne_nil (count n : Nat) : octalChars count n ≠ [] :=
  List.append_ne_nil_of_right_ne_nil _ Nat.toDigits_ne_nil

/-- The digits denote the number, whatever zeros are in front of them. -/
theorem ofDigitChars_octalChars (count n : Nat) :
    Nat.ofDigitChars 8 (octalChars count n) 0 = n := by
  have hzeros : ∀ k, Nat.ofDigitChars 8 (List.replicate k '0') 0 = 0 := by
    intro k
    induction k with
    | zero => rfl
    | succ k ih =>
      rw [List.replicate_succ, Nat.ofDigitChars_cons]
      exact ih
  rw [octalChars, Nat.ofDigitChars_append, hzeros]
  exact Nat.ofDigitChars_toDigits (by decide) (by decide)

/-- A field with a number in base eight, which ends with a zero. -/
inductive Octal (n : Nat) : Bytes → Prop
  | mk {count : Nat} {rest : Bytes} : n < UInt64.size → Octal n (octalDigits count n ++ 0 :: rest)

/-- A field with the size of a member: in base eight, or in base 256 when it does not fit. -/
inductive SizeField (n : Nat) : Bytes → Prop
  | octal {field : Bytes} : Octal n field → SizeField n field
  | binary : n < UInt64.size → SizeField n ([0x80, 0, 0, 0] ++ (Bytes.ofNat 8 n).reverse)

/-- The codes of octal digits lie between those of 0 and 7. -/
theorem toNat_octalChars {count n : Nat} {c : Char} (h : c ∈ octalChars count n) :
    48 ≤ c.toNat ∧ c.toNat ≤ 55 :=
  mem_octalChars h

/-- The bytes of a field lie between those of 0 and 7. -/
theorem mem_octalDigits {count n : Nat} {b : UInt8} (h : b ∈ octalDigits count n) :
    48 ≤ b.toNat ∧ b.toNat ≤ 55 := by
  rw [octalDigits_eq] at h
  obtain ⟨c, hc, rfl⟩ := List.mem_map.1 h
  have hbounds := toNat_octalChars hc
  rwa [Text.Utf8.toNat_ofNat (by omega)]

/-- A byte with a value other than 0 is not the byte 0. -/
theorem ne_zero_of_toNat {b : UInt8} (h : b.toNat ≠ 0) : b ≠ 0 := by
  rintro rfl
  exact h rfl

/-- A field is taken up to the zero behind it. -/
theorem upToZero_append {field : Bytes} (h : ∀ b ∈ field, b ≠ 0) (rest : Bytes) :
    upToZero (field ++ 0 :: rest) = field := by
  rw [upToZero, List.takeWhile_append_of_pos (by simpa using h)]
  simp

/-- A number is read from its digits. -/
theorem octal?_of_octal {n : Nat} {field : Bytes} (h : Octal n field) : octal? field = some n := by
  obtain ⟨hn⟩ := h
  rename_i count rest
  have hfield : upToZero (octalDigits count n ++ 0 :: rest) = octalDigits count n :=
    upToZero_append (fun b hb => ne_zero_of_toNat (by have := mem_octalDigits hb; omega)) rest
  have hdecode : Text.Utf8.decode? (octalDigits count n) =
      some (String.ofList (octalChars count n)) := by
    refine Text.Utf8.decode?_eq_some_iff.2 ?_
    rw [octalDigits_eq, Bytes.encode_ofList fun c hc => by have := toNat_octalChars hc; omega]
  have htrim : Text.trimChars (octalChars count n) = octalChars count n := by
    refine Text.trimChars_of_not_blank fun c hc => Text.isBlank_of_isDigit ?_
    have hc := mem_octalChars hc
    simp only [Char.isDigit, Bool.and_eq_true, decide_eq_true_eq]
    exact ⟨hc.1, Char.le_trans hc.2 (by decide)⟩
  have hdigits : (octalChars count n).all (fun c => '0' ≤ c && c ≤ '7') = true :=
    List.all_eq_true.2 fun c hc => by simpa using mem_octalChars hc
  have hvalue : (octalChars count n).foldl (fun n c => 8 * n + (c.toNat - '0'.toNat)) 0 = n :=
    Nat.ofDigitChars_eq_foldl.symm.trans (ofDigitChars_octalChars count n)
  have hempty : (octalChars count n).isEmpty = false := by
    simpa using octalChars_ne_nil count n
  simp only [octal?, hfield, hdecode, Option.bind_eq_bind, Option.bind_some, String.toList_ofList,
    htrim]
  generalize hchars : octalChars count n = chars at *
  split
  · -- there is no sign in front of the digits
    rename_i digits
    have hplus : '+' ∈ octalChars count n := by simp [hchars]
    exact absurd (mem_octalChars hplus) (by decide)
  · rw [if_neg (by simp [hempty, hdigits]), hvalue, if_pos hn]

/-- The bytes of a number, its least byte last. -/
theorem foldl_reverse_ofNat {count n : Nat} (h : n < Nat.pow 256 count) :
    (Bytes.ofNat count n).reverse.foldl (fun n b => 256 * n + b.toNat) 0 = n := by
  have hfold : ∀ bytes : Bytes,
      bytes.foldr (fun b n => 256 * n + b.toNat) 0 = Bytes.littleEndian bytes := by
    intro bytes
    induction bytes with
    | nil => rfl
    | cons b bytes ih => rw [List.foldr_cons, ih, Bytes.littleEndian, Nat.add_comm]
  rw [List.foldl_reverse, hfold, Bytes.littleEndian_ofNat]
  exact Nat.mod_eq_of_lt h

/-- A field of a size is read as this size. -/
theorem number?_of_sizeField {n : Nat} {field : Bytes} (h : SizeField n field) :
    number? field = some n := by
  cases h with
  | octal hfield =>
    have hread := octal?_of_octal hfield
    obtain ⟨-⟩ := hfield
    rename_i count rest
    obtain ⟨b, digits, hdigits⟩ := List.exists_cons_of_ne_nil (l := octalDigits count n)
      (by simpa [octalDigits_eq] using octalChars_ne_nil count n)
    have hb := mem_octalDigits (b := b) (by rw [hdigits]; exact List.mem_cons_self)
    rw [hdigits] at hread ⊢
    exact (if_neg (by simp only [List.cons_append, List.headD_cons]; omega)).trans hread
  | binary hn =>
    have hvalue : (Bytes.ofNat 8 n).reverse.foldl (fun n b => 256 * n + b.toNat) 0 = n :=
      foldl_reverse_ofNat (show n < Nat.pow 256 8 from hn)
    exact (if_pos (show 0x80 ≤ (0x80 : UInt8).toNat by decide)).trans (congrArg some hvalue)

/-! ## The form -/

/-- A plain file and a header for it. -/
structure Member where
  entry : Entry
  path : PlainPath entry.path
  block : Bytes
  block_length : block.length = blockSize
  name : part block 0 100 = fill 100 (Bytes.ofAscii entry.path)
  size : SizeField entry.content.length (part block 124 136)
  checksum : Octal (Header.mk block).sum (part block 148 156)
  type : part block 156 157 = Bytes.ofAscii "0"
  signature : part block 257 265 = Bytes.ofAscii "ustar" ++ [0] ++ Bytes.ofAscii "00"
  /-- The name does not go on in the field of the directory. -/
  folder : (part block 345 500).headD 0 = 0

/-- The header and the data, filled up to whole blocks. -/
def Member.bytes (m : Member) : Bytes :=
  m.block ++ fill (roundUp m.entry.content.length) m.entry.content

/-- An archive holds files, in order. What is behind the blocks at its end is not read. -/
inductive Holds : Bytes → List Entry → Prop
  | mk {members : List Member} {padding : Bytes} :
      Holds (members.flatMap Member.bytes ++ (List.replicate (2 * blockSize) 0 ++ padding))
        (members.map Member.entry)

/-! ## Headers -/

/-- The bytes of a header sum up to less than a checksum can hold. -/
theorem Header.sum_le (h : Header) (hlength : h.block.length = blockSize) :
    h.sum ≤ 256 + 255 * 504 := by
  have hsum : ∀ bytes : Bytes,
      bytes.foldr (fun b n => b.toNat + n) (8 * 32) ≤ 256 + 255 * bytes.length := by
    intro bytes
    induction bytes with
    | nil => exact Nat.le_refl _
    | cons b bytes ih =>
      have hb := b.toNat_lt
      rw [List.foldr_cons, List.length_cons]
      omega
  refine Nat.le_trans (hsum _) ?_
  simp only [part, List.length_append, List.length_take, List.length_drop, hlength, blockSize]
  omega

namespace Member

variable (m : Member)

/-- The header of a member. -/
def header : Header :=
  ⟨m.block⟩

/-- A member is a regular file. -/
theorem type_header : m.header.type = '0' := by
  rw [Header.type, header, m.type]
  rfl

/-- The header of a member is followed by no map of a sparse file. -/
theorem mapBlocks?_header (size : Nat) (body : Bytes) : m.header.mapBlocks? size body = some 0 :=
  if_pos (by rw [m.type_header]; decide)

/-- The header tells the size of the content. -/
theorem size?_header : m.header.size? = some m.entry.content.length :=
  number?_of_sizeField m.size

/-- The header tells the path, however long it is. -/
theorem path_header : m.header.path = Bytes.ofAscii m.entry.path := by
  have hfolder : upToZero (part m.block 345 500) = [] := by
    have hzero := m.folder
    cases hpart : part m.block 345 500 with
    | nil => rfl
    | cons b rest =>
      rw [hpart] at hzero
      rw [upToZero, List.takeWhile_cons_of_neg (by simpa using hzero)]
  have hname : upToZero (part m.block 0 100) = Bytes.ofAscii m.entry.path := by
    have hshort := m.path.short
    have hbytes : ∀ b ∈ Bytes.ofAscii m.entry.path, b ≠ 0 := fun b hb =>
      ne_zero_of_toNat (by have := m.path.mem_ofAscii hb; omega)
    rw [m.name, fill, Bytes.length_ofAscii,
      show 100 - m.entry.path.toList.length = (99 - m.entry.path.toList.length) + 1 by omega,
      List.replicate_succ, upToZero_append hbytes]
  simp only [Header.path, header, hname, hfolder]
  split <;> rfl

/-- The checksum of a header is right. -/
theorem checks_header : m.header.checks = true := by
  have hsum := m.header.sum_le m.block_length
  have hsmall : m.header.sum % UInt32.size = m.header.sum :=
    Nat.mod_eq_of_lt (by simp only [UInt32.size]; omega)
  have hread : octal? (part m.header.block 148 156) = some m.header.sum :=
    octal?_of_octal m.checksum
  simp only [Header.checks, hread, hsmall, beq_self_eq_true]

/-- The block of a header is not one that ends an archive. -/
theorem block_ne_zeros : m.block.all (· = 0) = false := by
  have hletter : (0x75 : UInt8) ∈ part m.block 257 265 := by
    rw [m.signature]
    decide
  refine List.all_eq_false.2 ⟨0x75, ?_, by decide⟩
  exact List.mem_of_mem_drop (List.mem_of_mem_take hletter)

end Member

/-! ## Members -/

/-- Rounding up to whole blocks takes nothing away. -/
theorem le_roundUp (n : Nat) : n ≤ roundUp n := by
  simp only [roundUp, blockSize]
  omega

/-- A field that is filled up is as long as it should be. -/
theorem length_fill {count : Nat} {bytes : Bytes} (h : bytes.length ≤ count) :
    (fill count bytes).length = count := by
  rw [fill, List.length_append, List.length_replicate]
  omega

/-- A member takes a block for its header and whole blocks for its content. -/
theorem Member.length_bytes (m : Member) :
    m.bytes.length = blockSize + roundUp m.entry.content.length := by
  rw [bytes, List.length_append, m.block_length, length_fill (le_roundUp _)]

/-- Without extensions in front of it a member has the size that its header states. -/
theorem Pending.size_none (h : Header) (stated : Nat) : Pending.size .none h stated = stated := by
  unfold Pending.size
  split <;> rfl

/-- A member is taken from the front with its data. -/
theorem member?_bytes (m : Member) (rest : Bytes) :
    member? .none (m.bytes ++ rest) = .ok (some (m.header, m.entry.content, rest)) := by
  have hround := le_roundUp m.entry.content.length
  have hblock : (m.bytes ++ rest).take blockSize = m.block := by
    rw [Member.bytes, List.append_assoc, List.take_left' m.block_length]
  have hbody : (m.bytes ++ rest).drop blockSize =
      fill (roundUp m.entry.content.length) m.entry.content ++ rest := by
    rw [Member.bytes, List.append_assoc, List.drop_left' m.block_length]
  have hlength : (m.bytes ++ rest).length = blockSize + roundUp m.entry.content.length +
      rest.length := by
    rw [List.length_append, m.length_bytes]
  have hempty : (m.bytes ++ rest).isEmpty = false := by
    rw [List.isEmpty_eq_false_iff, ← List.length_pos_iff, hlength]
    simp only [blockSize]
    omega
  have hfill : (fill (roundUp m.entry.content.length) m.entry.content ++ rest).length =
      roundUp m.entry.content.length + rest.length := by
    rw [List.length_append, length_fill hround]
  have hdata : (fill (roundUp m.entry.content.length) m.entry.content ++ rest).take
      m.entry.content.length = m.entry.content := by
    rw [fill, List.append_assoc, List.take_left]
  have hrest : (fill (roundUp m.entry.content.length) m.entry.content ++ rest).drop
      (roundUp m.entry.content.length) = rest := List.drop_left' (length_fill hround)
  have hheader : Header.mk m.block = m.header := rfl
  have hshort : ¬ blockSize + roundUp m.entry.content.length + rest.length < blockSize := by omega
  have hcut : ¬ roundUp m.entry.content.length + rest.length <
      roundUp m.entry.content.length := by omega
  simp only [member?, hblock, hheader, hbody, hempty, hlength, if_neg hshort, m.block_ne_zeros,
    m.checks_header, m.size?_header, Pending.size_none, m.mapBlocks?_header, Nat.zero_mul,
    List.drop_zero, hfill, if_neg hcut, hdata, hrest, Bool.false_eq_true, reduceCtorEq, if_false]

/-- The archive ends with a block of zeros. -/
theorem member?_zeros (padding : Bytes) :
    member? .none (List.replicate (2 * blockSize) 0 ++ padding) = .ok none := by
  have hlength : (List.replicate (2 * blockSize) 0 ++ padding).length =
      2 * blockSize + padding.length := by
    rw [List.length_append, List.length_replicate]
  have hshort : ¬ 2 * blockSize + padding.length < blockSize := by omega
  have hempty : (List.replicate (2 * blockSize) 0 ++ padding).isEmpty = false := rfl
  have hblock : (List.replicate (2 * blockSize) (0 : UInt8) ++ padding).take blockSize =
      List.replicate blockSize 0 := by
    rw [List.take_append_of_le_length (by rw [List.length_replicate]; omega), List.take_replicate,
      Nat.min_eq_left (by omega)]
  have hzeros : (List.replicate blockSize (0 : UInt8)).all (fun b => decide (b = 0)) = true :=
    List.all_eq_true.2 fun b hb => decide_eq_true (List.eq_of_mem_replicate hb)
  simp only [member?, hempty, hlength, if_neg hshort, hblock, hzeros, Bool.false_eq_true, if_false,
    if_true]

/-! ## Archives -/

/-- A plain file is read in front of what follows it. -/
theorem readFrom_bytes (m : Member) (rest : Bytes) :
    readFrom .none (m.bytes ++ rest) = (readFrom .none rest).map (m.entry :: ·) := by
  have hmember := member?_bytes m rest
  have htype := m.type_header
  have hpath : Text.Utf8.decodeLossy (Pending.path .none m.header) = m.entry.path := by
    have hname : Pending.path .none m.header = Bytes.ofAscii m.entry.path := m.path_header
    rw [hname, m.path.decodeLossy_ofAscii]
  have hfile : m.header.isFile = true := by
    rw [Header.isFile, htype]
    rfl
  rw [readFrom]
  split
  · rename_i h
    rw [hmember] at h
    cases h
  · rename_i h
    rw [hmember] at h
    cases h
  · rename_i header data rest' h
    rw [hmember] at h
    injection h with h
    injection h with h
    injection h with hheader h
    injection h with hdata hrest
    subst hheader hdata hrest
    have hother : ∀ c, c ≠ '0' → ¬ (m.header.format ≠ .old ∧ m.header.type = c) := by
      rintro c hc ⟨-, rfl⟩
      exact hc htype
    dsimp only
    rw [if_neg (hother _ (by decide)), if_neg (hother _ (by decide)),
      if_neg (hother _ (by decide)), hfile, hpath]
    cases readFrom .none rest <;> rfl

/-- Two blocks of zeros end an archive, whatever comes behind them. -/
theorem readFrom_zeros (padding : Bytes) :
    readFrom .none (List.replicate (2 * blockSize) 0 ++ padding) = .ok [] := by
  have hmember := member?_zeros padding
  rw [readFrom]
  split
  · rename_i h
    rw [hmember] at h
    cases h
  · exact if_pos rfl
  · rename_i h
    rw [hmember] at h
    cases h

/-- An archive is read as the files that it holds. -/
theorem read_of_holds {archive : Bytes} {files : List Entry} (h : Holds archive files) :
    read archive = .ok files := by
  obtain ⟨⟩ := h
  rename_i members padding
  rw [read]
  induction members with
  | nil => exact readFrom_zeros padding
  | cons m members ih =>
    rw [List.flatMap_cons, List.append_assoc, readFrom_bytes, ih]
    rfl

/-- A member begins with printable characters or zeros. -/
theorem Member.mem_take (m : Member) (rest : Bytes) {b : UInt8}
    (h : b ∈ (m.bytes ++ rest).take 100) : 32 ≤ b.toNat ∨ b = 0 := by
  have hname : (m.bytes ++ rest).take 100 = fill 100 (Bytes.ofAscii m.entry.path) := by
    rw [← m.name, Member.bytes, List.append_assoc, List.take_append_of_le_length]
    · rfl
    · rw [m.block_length]
      decide
  rw [hname, fill, List.mem_append] at h
  rcases h with h | h
  · exact .inl (m.path.mem_ofAscii h).1
  · exact .inr (List.eq_of_mem_replicate h)

/-- No archive of files begins with a byte that is neither printable nor zero. -/
theorem mem_take_of_holds {archive : Bytes} {files : List Entry} (h : Holds archive files)
    {b : UInt8} (hb : b ∈ archive.take 100) : 32 ≤ b.toNat ∨ b = 0 := by
  obtain ⟨⟩ := h
  rename_i members padding
  cases members with
  | nil =>
    rw [List.flatMap_nil, List.nil_append, List.take_append_of_le_length
      (by rw [List.length_replicate]; decide), List.take_replicate] at hb
    exact .inr (List.eq_of_mem_replicate hb)
  | cons m members =>
    rw [List.flatMap_cons, List.append_assoc] at hb
    exact m.mem_take _ hb

/-! ## Archives that are written -/

/-- The least size that does not fit into the eleven digits of its field. -/
def sizeLimit : Nat :=
  Nat.pow 8 11

/-- A field is found behind the bytes in front of it. -/
theorem part_append {front middle : Bytes} {start stop : Nat} (hstart : front.length = start)
    (hstop : middle.length = stop - start) (rest : Bytes) :
    part (front ++ (middle ++ rest)) start stop = middle := by
  rw [part, List.drop_left' hstart, List.take_left' hstop]

/-- A number that fits has as many digits as its field. -/
theorem length_octalDigits {count n : Nat} (hcount : 0 < count) (h : n < Nat.pow 8 count) :
    (octalDigits count n).length = count := by
  have hle := (Nat.length_toDigits_le_iff (by decide) hcount).2 h
  rw [octalDigits_eq, List.length_map, octalChars, List.length_append, List.length_replicate]
  omega

/-- The mode and the owner in a header. -/
def ownerFields : Bytes :=
  octalDigits 7 0o644 ++ [0] ++ octalDigits 7 0 ++ [0] ++ octalDigits 7 0 ++ [0]

/-- The fields of a header in front of its checksum. -/
def headerFront (e : Entry) : Bytes :=
  fill 100 (Bytes.ofAscii e.path) ++ (ownerFields ++ ((octalDigits 11 e.content.length ++ [0]) ++
    (octalDigits 11 0 ++ [0])))

/-- The signature of a header. -/
def signatureField : Bytes :=
  Bytes.ofAscii "ustar" ++ [0] ++ Bytes.ofAscii "00"

/-- The fields of a header behind its checksum. -/
def headerBack : Bytes :=
  Bytes.ofAscii "0" ++ (List.replicate 100 0 ++ (signatureField ++ List.replicate 247 0))

/-- A header is what stands in front of the checksum, the checksum, and what stands behind it. -/
theorem headerWith_eq (checksum : Bytes) (e : Entry) :
    headerWith checksum e = headerFront e ++ (checksum ++ headerBack) := by
  simp only [headerWith, headerFront, ownerFields, headerBack, signatureField, List.append_assoc]

/-- The fields about the owner take 24 bytes. -/
theorem length_ownerFields : ownerFields.length = 24 := by
  simp only [ownerFields, List.length_append, List.length_singleton,
    length_octalDigits (show 0 < 7 by decide) (show 0o644 < Nat.pow 8 7 by decide),
    length_octalDigits (show 0 < 7 by decide) (show 0 < Nat.pow 8 7 by decide)]

/-- Behind the checksum come 356 bytes. -/
theorem length_headerBack : headerBack.length = 356 := by
  simp only [headerBack, signatureField, List.length_append, List.length_replicate,
    Bytes.length_ofAscii]
  rfl

section Writing

variable {e : Entry} (path : PlainPath e.path) (hsize : e.content.length < sizeLimit)

include path

/-- The path takes 100 bytes in a header. -/
theorem length_name : (fill 100 (Bytes.ofAscii e.path)).length = 100 := by
  have hshort := path.short
  exact length_fill (by rw [Bytes.length_ofAscii]; omega)

include hsize

/-- In front of the checksum stand 148 bytes. -/
theorem length_headerFront : (headerFront e).length = 148 := by
  simp only [headerFront, List.length_append, length_name path, length_ownerFields,
    length_octalDigits (by decide) hsize,
    length_octalDigits (show 0 < 11 by decide) (show 0 < Nat.pow 8 11 by decide),
    List.length_singleton]

/-- The sum of a header does not depend on what stands in the place of its checksum. -/
theorem sum_headerWith {checksum : Bytes} (h : checksum.length = 8) :
    (Header.mk (headerWith checksum e)).sum =
      (headerFront e ++ headerBack).foldr (fun b n => b.toNat + n) (8 * 32) := by
  have hfront : part ([] ++ (headerFront e ++ (checksum ++ headerBack))) 0 148 = headerFront e :=
    part_append rfl (length_headerFront path hsize) _
  have hplace : (headerFront e ++ checksum).length = 156 := by
    rw [List.length_append, length_headerFront path hsize, h]
  have hback : part ((headerFront e ++ checksum) ++ (headerBack ++ [])) 156 512 = headerBack :=
    part_append hplace (by rw [length_headerBack]) []
  rw [List.nil_append] at hfront
  rw [List.append_nil, List.append_assoc] at hback
  rw [headerWith_eq, Header.sum, hfront, hback]

/-- A header takes a block. -/
theorem length_headerWith {checksum : Bytes} (h : checksum.length = 8) :
    (headerWith checksum e).length = blockSize := by
  rw [headerWith_eq, List.length_append, List.length_append, length_headerFront path hsize, h,
    length_headerBack]
  rfl

/-- The checksum of a header in its place. -/
theorem exists_headerOf_eq :
    ∃ checksum : Bytes, checksum.length = 8 ∧ headerOf e = headerWith checksum e ∧
      Octal (Header.mk (headerOf e)).sum checksum := by
  have hzeros : (List.replicate 8 (0 : UInt8)).length = 8 := by decide
  have hle := (Header.mk (headerWith (List.replicate 8 0) e)).sum_le
    (length_headerWith path hsize hzeros)
  have hsum := sum_headerWith path hsize hzeros
  have hheader : headerOf e = headerWith
      (octalDigits 6 (Header.mk (headerWith (List.replicate 8 0) e)).sum ++ 0 :: Bytes.ofAscii " ")
      e := by
    simp only [headerOf, List.append_assoc, List.singleton_append]
  generalize (Header.mk (headerWith (List.replicate 8 0) e)).sum = n at hle hsum hheader
  have hlength : (octalDigits 6 n ++ 0 :: Bytes.ofAscii " ").length = 8 := by
    rw [List.length_append, length_octalDigits (by decide) (Nat.lt_of_le_of_lt hle (by decide))]
    rfl
  refine ⟨_, hlength, hheader, ?_⟩
  rw [hheader, sum_headerWith path hsize hlength, ← hsum]
  exact .mk (by simp only [UInt64.size]; omega)

/-- A file with the header that is written for it. -/
theorem exists_member : ∃ m : Member, m.entry = e ∧ m.block = headerOf e := by
  obtain ⟨checksum, hlength, hheader, hsum⟩ := exists_headerOf_eq path hsize
  have hname := length_name path
  have hfront := length_headerFront path hsize
  have hnumber : (octalDigits 11 e.content.length ++ [0]).length = 136 - 124 := by
    rw [List.length_append, length_octalDigits (by decide) hsize, List.length_singleton]
  have hzeros : List.replicate 247 (0 : UInt8) =
      List.replicate 80 0 ++ (List.replicate 155 0 ++ List.replicate 12 0) := by
    rw [List.replicate_append_replicate, List.replicate_append_replicate]
  -- each field stands behind the fields in front of it
  have hpart : ∀ (front middle rest : Bytes) {start stop : Nat}, front.length = start →
      middle.length = stop - start →
      headerFront e ++ (checksum ++ headerBack) = front ++ (middle ++ rest) →
      part (headerOf e) start stop = middle := by
    intro front middle rest start stop hstart hstop hplaces
    rw [hheader, headerWith_eq, hplaces, part_append hstart hstop]
  have hfield : part (headerOf e) 148 156 = checksum :=
    hpart (headerFront e) checksum headerBack hfront hlength rfl
  have hback : (headerFront e ++ checksum).length = 156 := by
    rw [List.length_append, hfront, hlength]
  have hsignature : (headerFront e ++ checksum ++ Bytes.ofAscii "0" ++
      List.replicate 100 0).length = 257 := by
    rw [List.length_append, List.length_append, hback, Bytes.length_ofAscii, List.length_replicate]
    rfl
  refine ⟨⟨e, path, headerOf e, ?_, ?_, ?_, ?_, ?_, ?_, ?_⟩, rfl, rfl⟩
  · rw [hheader, length_headerWith path hsize hlength]
  · exact hpart [] _ (ownerFields ++ ((octalDigits 11 e.content.length ++ [0]) ++
      (octalDigits 11 0 ++ [0])) ++ (checksum ++ headerBack)) rfl hname
      (by simp only [headerFront, List.append_assoc, List.nil_append])
  · rw [hpart (fill 100 (Bytes.ofAscii e.path) ++ ownerFields)
      (octalDigits 11 e.content.length ++ [0])
      ((octalDigits 11 0 ++ [0]) ++ (checksum ++ headerBack))
      (by rw [List.length_append, hname, length_ownerFields]) hnumber
      (by simp only [headerFront, List.append_assoc])]
    exact .octal (.mk (Nat.lt_trans hsize (by decide)))
  · rw [hfield]
    exact hsum
  · exact hpart (headerFront e ++ checksum) (Bytes.ofAscii "0")
      (List.replicate 100 0 ++ (signatureField ++ List.replicate 247 0)) hback rfl
      (by simp only [headerBack, List.append_assoc])
  · exact hpart (headerFront e ++ checksum ++ Bytes.ofAscii "0" ++ List.replicate 100 0)
      signatureField (List.replicate 247 0) hsignature rfl
      (by simp only [headerBack, List.append_assoc])
  · rw [hpart (headerFront e ++ checksum ++ Bytes.ofAscii "0" ++ List.replicate 100 0 ++
        (signatureField ++ List.replicate 80 0)) (List.replicate 155 0) (List.replicate 12 0)
      (by rw [List.length_append, hsignature]; rfl) List.length_replicate
      (by simp only [headerBack, hzeros, List.append_assoc])]
    rfl

end Writing

/-- Files with plain paths that are small enough can be written as members of an archive. -/
theorem exists_members {files : List Entry} (hpaths : ∀ e ∈ files, PlainPath e.path)
    (hsizes : ∀ e ∈ files, e.content.length < sizeLimit) :
    ∃ members : List Member, members.map Member.entry = files ∧
      members.flatMap Member.bytes =
        files.flatMap fun e => headerOf e ++ fill (roundUp e.content.length) e.content := by
  induction files with
  | nil => exact ⟨[], rfl, rfl⟩
  | cons e files ih =>
    rw [List.forall_mem_cons] at hpaths hsizes
    obtain ⟨members, hfiles, hbytes⟩ := ih hpaths.2 hsizes.2
    obtain ⟨m, rfl, hblock⟩ := exists_member hpaths.1 hsizes.1
    refine ⟨m :: members, by rw [List.map_cons, hfiles], ?_⟩
    rw [List.flatMap_cons, List.flatMap_cons, hbytes, Member.bytes, hblock]

/-- The archive that is written of files holds them, if each size fits into its field. -/
theorem holds_write {files : List Entry} (hpaths : ∀ e ∈ files, PlainPath e.path)
    (hsizes : ∀ e ∈ files, e.content.length < sizeLimit) : Holds (write files) files := by
  obtain ⟨members, rfl, hbytes⟩ := exists_members hpaths hsizes
  rw [write, ← hbytes, ← List.append_nil (List.replicate (2 * blockSize) 0)]
  exact .mk

end CourseQuery.Tar
