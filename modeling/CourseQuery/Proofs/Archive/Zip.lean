import CourseQuery.Archive.Zip
import CourseQuery.Proofs.Archive.Fields
import CourseQuery.Proofs.Steps

/-!
# Stored zip archives read back

`Holds` is the form of a zip archive whose entries are stored as they are: the local headers with
the data, the central directory, and the end, which has a wide record where a number does not fit.
What an archive says besides (versions, times, attributes, comments, the fields of local headers)
is left open. Every archive of the form is read as the files it holds.
-/

set_option autoImplicit false

namespace CourseQuery.Zip

open Archive (Entry PlainPath)

/-! ## The form -/

/-- A stored file and what an archive may say about it. -/
structure Member where
  entry : Entry
  path : PlainPath entry.path
  /-- The fields of the local header in front of the lengths. -/
  localFields : Bytes
  localFields_length : localFields.length = 22
  localExtra : Bytes
  localExtra_length : localExtra.length < 0x10000
  /-- The versions of the writer and of the format. -/
  versions : Bytes
  versions_length : versions.length = 4
  /-- Of the flags only the one of encrypted data must not be set. -/
  flags : Nat
  flags_lt : flags < 0x10000
  plain : flags.testBit 0 = false
  time : Bytes
  time_length : time.length = 4
  attributes : Bytes
  attributes_length : attributes.length = 8
  comment : Bytes
  comment_length : comment.length < 0x10000

/-- A number in four bytes, of which the greatest value says that the number stands elsewhere. -/
def narrow (n : Nat) : Bytes :=
  Bytes.ofNat 4 (min n wideMark)

/-- The eight bytes of a number that does not fit into four. -/
def wide (n : Nat) : Bytes :=
  if n < wideMark then [] else Bytes.ofNat 8 n

/-- The extra field with the numbers that do not fit, if there are any. -/
def wideField (size start : Nat) : Bytes :=
  let numbers := wide size ++ (wide size ++ wide start)
  if numbers = [] then []
  else Bytes.ofNat 2 wideKind ++ (Bytes.ofNat 2 numbers.length ++ numbers)

namespace Member

/-- The bytes of the path. -/
def name (m : Member) : Bytes :=
  Bytes.ofAscii m.entry.path

/-- The size of the content. -/
def size (m : Member) : Nat :=
  m.entry.content.length

/-- The local header and the data. -/
def localPart (m : Member) : Bytes :=
  localSignature ++ (m.localFields ++ (Bytes.ofNat 2 m.name.length ++
    (Bytes.ofNat 2 m.localExtra.length ++ (m.name ++ (m.localExtra ++ m.entry.content)))))

/-- The entry of the central directory for a local header that begins at `start`. -/
def centralPart (m : Member) (start : Nat) : Bytes :=
  centralSignature ++ (m.versions ++ (Bytes.ofNat 2 m.flags ++ (Bytes.ofNat 2 0 ++ (m.time ++
    (Bytes.ofNat 4 (Checksum.crc32 m.entry.content).toNat ++ (narrow m.size ++ (narrow m.size ++
    (Bytes.ofNat 2 m.name.length ++ (Bytes.ofNat 2 (wideField m.size start).length ++
    (Bytes.ofNat 2 m.comment.length ++ (m.attributes ++ (narrow start ++
    (m.name ++ (wideField m.size start ++ m.comment))))))))))))))

end Member

/-- The local headers with their data. -/
def locals (members : List Member) : Bytes :=
  members.flatMap Member.localPart

/-- The central directory, the first local header beginning at `start`. -/
def centrals : (start : Nat) → List Member → Bytes
  | _, [] => []
  | start, m :: members => m.centralPart start ++ centrals (start + m.localPart.length) members

/-- The end record for a directory of `count` entries and `size` bytes that begins at `start`. -/
def endRecord (count size start : Nat) : Bytes :=
  endSignature ++ (Bytes.ofNat 2 0 ++ (Bytes.ofNat 2 0 ++ (Bytes.ofNat 2 (min count 0xFFFF) ++
    (Bytes.ofNat 2 (min count 0xFFFF) ++ (narrow size ++ (narrow start ++ Bytes.ofNat 2 0))))))

/-- The wide end record, whose first fields are its own size and the versions. -/
def wideEndRecord (fields : Bytes) (count size start : Nat) : Bytes :=
  wideEndSignature ++ (fields ++ (Bytes.ofNat 4 0 ++ (Bytes.ofNat 4 0 ++ (Bytes.ofNat 8 count ++
    (Bytes.ofNat 8 count ++ (Bytes.ofNat 8 size ++ Bytes.ofNat 8 start))))))

/-- The locator of a wide end record that begins at `start`. -/
def locator (start : Nat) : Bytes :=
  locatorSignature ++ (Bytes.ofNat 4 0 ++ (Bytes.ofNat 8 start ++ Bytes.ofNat 4 1))

/-- The end of an archive behind `front`. Without a wide record all numbers must fit, and what is in
front of the end record must not look like a locator, for then it would be taken for one. -/
inductive Ending (count size start : Nat) (front : Bytes) : Bytes → Prop
  | plain : count < 0xFFFF → size < wideMark → start < wideMark →
      ¬ locatorSignature <+: front.drop (front.length - locatorSize) →
      Ending count size start front (endRecord count size start)
  | wide {fields : Bytes} : fields.length = 12 →
      Ending count size start front
        (wideEndRecord fields count size start ++ (locator front.length ++
          endRecord count size start))

/-- An archive holds files as they are, in order. -/
inductive Holds : Bytes → List Entry → Prop
  | mk {members : List Member} {ending : Bytes} :
      Ending members.length (centrals 0 members).length (locals members).length
        (locals members ++ centrals 0 members) ending →
      (locals members ++ centrals 0 members ++ ending).length < UInt64.size →
      Holds (locals members ++ centrals 0 members ++ ending) (members.map Member.entry)

/-! ## Entries of the directory -/

/-- A signature is found where it stands. -/
theorem takeSignature?_append (signature rest : Bytes) :
    takeSignature? signature (signature ++ rest) = some rest := by
  rw [takeSignature?, if_pos (List.isPrefixOf_iff_prefix.2 (List.prefix_append _ _)),
    List.drop_left]

/-- A number is read from its four bytes, or else from the field behind it. -/
theorem wideNat?_narrow {n : Nat} (h : n < UInt64.size) (rest : Bytes) :
    wideNat? (min n wideMark) (wide n ++ rest) = some (n, rest) := by
  unfold wideNat? wide
  by_cases hn : n < wideMark
  · rw [if_pos hn, Nat.min_eq_left (by omega), if_neg (by omega), List.nil_append]
  · rw [if_neg hn, Nat.min_eq_right (by omega), if_pos rfl, Bytes.takeNat?_eight h]

/-- A number in a narrow field is read as itself or, if it is too great, as the mark that it stands
in a wide one. -/
theorem takeNat?_narrow (n : Nat) (rest : Bytes) :
    Bytes.takeNat? 4 (narrow n ++ rest) = some (min n wideMark, rest) := by
  have hmark : wideMark < UInt32.size := by decide
  exact Bytes.takeNat?_four (by omega) rest

/-- A number that fits in a narrow field takes no wide one. -/
theorem wide_eq_nil_iff {n : Nat} : wide n = [] ↔ n < wideMark := by
  unfold wide
  split
  · rename_i hn
    exact iff_of_true rfl hn
  · rename_i hn
    exact iff_of_false (by simp [Bytes.ofNat]) hn

/-- A wide field takes at most eight bytes. -/
theorem length_wide_le (n : Nat) : (wide n).length ≤ 8 := by
  unfold wide
  split
  · exact Nat.zero_le _
  · exact Nat.le_of_eq (Bytes.length_ofNat 8 n)

/-- The extra field of wide numbers takes at most 28 bytes. -/
theorem length_wideField_le (size start : Nat) : (wideField size start).length ≤ 28 := by
  have h₁ := length_wide_le size
  have h₂ := length_wide_le start
  unfold wideField
  dsimp only
  split
  · exact Nat.zero_le _
  · simp only [List.length_append, Bytes.length_ofNat]
    omega

/-- The length of a name fits in 16 bits. -/
theorem Member.length_name_lt (m : Member) : m.name.length < 0x10000 := by
  have hshort := m.path.short
  rw [Member.name, Bytes.length_ofAscii]
  omega

/-- What is read from the entry of a member. -/
def Member.header (m : Member) (start : Nat) : Header :=
  ⟨false, false, 0, (Checksum.crc32 m.entry.content).toNat, m.size, m.size, m.entry.path, start⟩

/-- No extra fields tell nothing new about a header. -/
theorem extras?_nil (fuel : Nat) (h : Header) : Header.extras? fuel h [] = some h := by
  cases fuel <;> rfl

/-- A field that holds something is read before what is behind it. -/
theorem extras?_of_extra {h h' : Header} {fuel : Nat} {bytes rest : Bytes} (hne : bytes ≠ [])
    (hextra : h.extra bytes = .read h' rest) :
    Header.extras? (fuel + 1) h bytes = Header.extras? fuel h' rest := by
  obtain ⟨b, bytes, rfl⟩ := List.exists_cons_of_ne_nil hne
  simp only [Header.extras?, hextra]

section Wide

variable {h : Header} {size start : Nat}

/-- The numbers that do not fit are read from their field. -/
theorem widen_wide (hsize : size < UInt64.size) (hstart : start < UInt64.size)
    (hcontent : h.contentSize = min size wideMark)
    (hcompressed : h.compressedSize = min size wideMark) (hplace : h.start = min start wideMark) :
    h.widen (wide size ++ (wide size ++ wide start)) =
      .read { h with contentSize := size, compressedSize := size, start := start } [] := by
  have hlast : wideNat? (min start wideMark) (wide start) = some (start, []) := by
    have := wideNat?_narrow hstart []
    rwa [List.append_nil] at this
  simp only [Header.widen, hcontent, wideNat?_narrow hsize, hcompressed, hplace, hlast]

/-- The extra field of wide numbers puts the sizes and the start in the place of their marks. -/
theorem extras?_wideField (hsize : size < UInt64.size) (hstart : start < UInt64.size)
    (hcontent : h.contentSize = min size wideMark)
    (hcompressed : h.compressedSize = min size wideMark) (hplace : h.start = min start wideMark) :
    Header.extras? (wideField size start).length h (wideField size start) =
      some { h with contentSize := size, compressedSize := size, start := start } := by
  have hread := widen_wide hsize hstart hcontent hcompressed hplace
  unfold wideField
  generalize hnumbers : wide size ++ (wide size ++ wide start) = numbers at hread ⊢
  dsimp only
  split
  · -- no number is left out, so the header has them all
    rename_i hnil
    rw [hnil, List.append_eq_nil_iff, List.append_eq_nil_iff, wide_eq_nil_iff,
      wide_eq_nil_iff] at hnumbers
    obtain ⟨hsmall, -, hnear⟩ := hnumbers
    rw [Nat.min_eq_left (Nat.le_of_lt hsmall)] at hcontent hcompressed
    rw [Nat.min_eq_left (Nat.le_of_lt hnear)] at hplace
    have hsame : ∀ a b c, h.contentSize = a → h.compressedSize = b → h.start = c →
        h = { h with contentSize := a, compressedSize := b, start := c } := by
      rintro _ _ _ rfl rfl rfl
      rfl
    rw [List.length_nil, extras?_nil, ← hsame _ _ _ hcontent hcompressed hplace]
  · rename_i hne
    have hlength : numbers.length < 0x10000 := by
      have h₁ := length_wide_le size
      have h₂ := length_wide_le start
      rw [← hnumbers, List.length_append, List.length_append]
      omega
    have hextra : h.extra (Bytes.ofNat 2 wideKind ++ (Bytes.ofNat 2 numbers.length ++ numbers)) =
        .read { h with contentSize := size, compressedSize := size, start := start } [] := by
      simp only [Header.extra, Bytes.takeNat?_two (show wideKind < 0x10000 by decide),
        Bytes.takeNat?_two hlength, if_true, hread, List.drop_nil]
    have hfuel : (Bytes.ofNat 2 wideKind ++ (Bytes.ofNat 2 numbers.length ++ numbers)).length =
        (3 + numbers.length) + 1 := by
      rw [List.length_append, List.length_append, Bytes.length_ofNat, Bytes.length_ofNat]
      omega
    rw [hfuel, extras?_of_extra (by simp [Bytes.ofNat]) hextra, extras?_nil]

end Wide

/-- The entry of a member is read with its name, its sizes, its checksum and its place. -/
theorem Header.read?_centralPart (m : Member) {start : Nat} (hsize : m.size < UInt64.size)
    (hstart : start < UInt64.size) (rest : Bytes) :
    Header.read? 0 (m.centralPart start ++ rest) = some (m.header start, rest) := by
  have hname := m.length_name_lt
  have hextra : (wideField m.size start).length < 0x10000 :=
    Nat.lt_of_le_of_lt (length_wideField_le m.size start) (by decide)
  have hcrc : (Checksum.crc32 m.entry.content).toNat < UInt32.size :=
    (Checksum.crc32 m.entry.content).toNat_lt
  have hwide := extras?_wideField (h := ⟨false, false, 0, (Checksum.crc32 m.entry.content).toNat,
    min m.size wideMark, min m.size wideMark, m.entry.path, min start wideMark⟩) hsize hstart
    rfl rfl rfl
  have htext : (if m.flags.testBit 11 then Text.Utf8.decodeLossy m.name
      else CodePage437.decode m.name) = m.entry.path := by
    split
    · exact m.path.decodeLossy_ofAscii
    · exact m.path.codePage437_ofAscii
  have hshift : (m.header start).shifted? 0 = some (m.header start) := if_pos hstart
  simp only [Member.centralPart, List.append_assoc]
  refine (bind_of_eq_some (takeSignature?_append _ _)).trans ?_
  refine (bind_of_eq_some (Bytes.cut?_append m.versions_length _)).trans ?_
  refine (bind_of_eq_some (Bytes.takeNat?_two m.flags_lt _)).trans ?_
  refine (bind_of_eq_some (Bytes.takeNat?_two (by decide) _)).trans ?_
  refine (bind_of_eq_some (Bytes.cut?_append m.time_length _)).trans ?_
  refine (bind_of_eq_some (Bytes.takeNat?_four hcrc _)).trans ?_
  refine (bind_of_eq_some (takeNat?_narrow _ _)).trans ?_
  refine (bind_of_eq_some (takeNat?_narrow _ _)).trans ?_
  refine (bind_of_eq_some (Bytes.takeNat?_two hname _)).trans ?_
  refine (bind_of_eq_some (Bytes.takeNat?_two hextra _)).trans ?_
  refine (bind_of_eq_some (Bytes.takeNat?_two m.comment_length _)).trans ?_
  refine (bind_of_eq_some (Bytes.cut?_append m.attributes_length _)).trans ?_
  refine (bind_of_eq_some (takeNat?_narrow _ _)).trans ?_
  refine (bind_of_eq_some (Bytes.cut?_append rfl _)).trans ?_
  refine (bind_of_eq_some (Bytes.cut?_append rfl _)).trans ?_
  refine (bind_of_eq_some (Bytes.cut?_append rfl _)).trans ?_
  dsimp only
  rw [htext, m.plain]
  refine (bind_of_eq_some hwide).trans ?_
  exact bind_of_eq_some hshift

/-- The headers of members, the first local header beginning at `start`. -/
def headersOf : (start : Nat) → List Member → List Header
  | _, [] => []
  | start, m :: members => m.header start :: headersOf (start + m.localPart.length) members

/-- The part of a member stands in front of those of the members behind it. -/
theorem locals_cons (m : Member) (members : List Member) :
    locals (m :: members) = m.localPart ++ locals members :=
  List.flatMap_cons

/-- The content of a member is shorter than the part that holds it. -/
theorem size_lt_length_localPart (m : Member) : m.size < m.localPart.length := by
  simp only [Member.localPart, localSignature, List.length_append, List.length_cons, Member.size]
  omega

/-- The directory is read as the headers of its entries. -/
theorem headers?_centrals (members : List Member) (start : Nat)
    (h : start + (locals members).length < UInt64.size) (rest : Bytes) :
    headers? 0 members.length (centrals start members ++ rest) =
      some (headersOf start members) := by
  induction members generalizing start with
  | nil => rfl
  | cons m members ih =>
    have hsize := size_lt_length_localPart m
    rw [locals_cons, List.length_append] at h
    have hread := Header.read?_centralPart m (by omega : m.size < UInt64.size)
      (by omega : start < UInt64.size) (centrals (start + m.localPart.length) members ++ rest)
    rw [List.length_cons, centrals, List.append_assoc]
    simp only [headers?, hread, Option.bind_eq_bind, Option.bind_some,
      ih (start + m.localPart.length) (by omega)]
    rfl

/-! ## Data -/

/-- The file of a member is read behind its local header. -/
theorem readEntry_localPart (m : Member) {archive rest : Bytes} {start : Nat}
    (h : archive.drop start = m.localPart ++ rest) :
    readEntry archive (m.header start) = .ok (some m.entry) := by
  have hname := m.length_name_lt
  have hdata : dataOf? archive (m.header start) = some (m.entry.content ++ rest) := by
    have hbehind : (m.name ++ (m.localExtra ++ (m.entry.content ++ rest))).drop
        (m.name.length + m.localExtra.length) = m.entry.content ++ rest := by
      rw [← List.append_assoc, List.drop_left' List.length_append]
    simp only [Member.localPart, List.append_assoc] at h
    have hplace : archive.drop (m.header start).start = _ := h
    rw [dataOf?, hplace]
    refine (bind_of_eq_some (takeSignature?_append _ _)).trans ?_
    refine (bind_of_eq_some (Bytes.cut?_append m.localFields_length _)).trans ?_
    refine (bind_of_eq_some (Bytes.takeNat?_two hname _)).trans ?_
    refine (bind_of_eq_some (Bytes.takeNat?_two m.localExtra_length _)).trans ?_
    exact congrArg some hbehind
  have hfile : (m.header start).isDirectory = false := by
    simp [Header.isDirectory, Member.header, m.path.not_slash, m.path.not_backslash]
  have htake : (m.entry.content ++ rest).take (m.header start).compressedSize = m.entry.content :=
    List.take_left
  have hcontent : contentOf? (m.header start) .stored m.entry.content = some m.entry.content :=
    if_pos rfl
  have hmethod : Method.ofNumber? (m.header start).method = some .stored := rfl
  simp only [readEntry, hdata, hmethod, hfile, htake, hcontent]
  rfl

/-- The files of members are read one after another behind `front`. -/
theorem mapM_readEntry (members : List Member) {archive : Bytes} (start : Nat) (rest : Bytes)
    (h : archive.drop start = locals members ++ rest) :
    (headersOf start members).mapM (readEntry archive) =
      .ok (members.map fun m => some m.entry) := by
  induction members generalizing start with
  | nil => rfl
  | cons m members ih =>
    rw [locals_cons, List.append_assoc] at h
    have hrest : archive.drop (start + m.localPart.length) = locals members ++ rest := by
      rw [← List.drop_drop, h, List.drop_left]
    rw [headersOf, List.mapM_cons, readEntry_localPart m h, ih _ hrest]
    rfl

/-! ## The end -/

/-- The end record takes as many bytes as a reader looks for. -/
theorem length_endRecord (count size start : Nat) :
    (endRecord count size start).length = endSize := by
  simp only [endRecord, narrow, List.length_append, Bytes.length_ofNat]
  rfl

/-- Behind the last place with room for an end record none is found. -/
theorem lastEnd_of_lt (bytes : Bytes) {total position : Nat} (found : Option Nat)
    (h : total < position + endSize) : lastEnd total found position bytes = found := by
  induction bytes generalizing position with
  | nil => rfl
  | cons b rest ih =>
    rw [lastEnd, if_neg fun hhere => by omega]
    exact ih (by omega)

/-- The last end record is found where the bytes have no room for another one. -/
theorem lastEnd_append {record : Bytes} (hsignature : endSignature <+: record)
    (hlength : record.length = endSize) (front : Bytes) (found : Option Nat) (position : Nat) :
    lastEnd (position + front.length + endSize) found position (front ++ record) =
      some (position + front.length) := by
  induction front generalizing found position with
  | nil =>
    obtain ⟨b, rest, rfl⟩ := List.exists_cons_of_length_pos (l := record) (by rw [hlength]; decide)
    rw [List.nil_append, lastEnd, List.length_nil, Nat.add_zero,
      if_pos ⟨Nat.le_refl _, List.isPrefixOf_iff_prefix.2 hsignature⟩]
    exact lastEnd_of_lt rest _ (by omega)
  | cons b front ih =>
    rw [List.cons_append, lastEnd, List.length_cons,
      show position + (front.length + 1) = position + 1 + front.length by omega]
    exact ih _ _

/-- What an end record tells of a directory of `count` entries and `size` bytes that begins at
`start`. -/
def EndRecord.telling (count size start : Nat) : EndRecord :=
  ⟨0, 0, min count 0xFFFF, min count 0xFFFF, min size wideMark, min start wideMark, 0⟩

/-- The end record is read as what it tells. -/
theorem EndRecord.read?_endRecord (count size start : Nat) :
    EndRecord.read? (endRecord count size start) = some (.telling count size start) := by
  have hcount : min count 0xFFFF < 0x10000 := by omega
  have hlast : Bytes.takeNat? 2 (Bytes.ofNat 2 0) = some (0, []) :=
    Bytes.takeNat?_two (by decide) []
  refine (bind_of_eq_some (takeSignature?_append _ _)).trans ?_
  refine (bind_of_eq_some (Bytes.takeNat?_two (by decide) _)).trans ?_
  refine (bind_of_eq_some (Bytes.takeNat?_two (by decide) _)).trans ?_
  refine (bind_of_eq_some (Bytes.takeNat?_two hcount _)).trans ?_
  refine (bind_of_eq_some (Bytes.takeNat?_two hcount _)).trans ?_
  refine (bind_of_eq_some (takeNat?_narrow _ _)).trans ?_
  refine (bind_of_eq_some (takeNat?_narrow _ _)).trans ?_
  exact bind_of_eq_some hlast

/-- An archive is read from its end record, unless a locator is in front of it. -/
theorem extent?_append_endRecord (front : Bytes) (count size start : Nat) :
    extent? (front ++ endRecord count size start) =
      match (EndRecord.telling count size start).locator?
        (front ++ endRecord count size start) with
      | none => (EndRecord.telling count size start).extent? front.length
      | some locator =>
        if (EndRecord.telling count size start).overflows = false ∧ 0 ≠ locator.disk then none
        else locator.extent? (front ++ endRecord count size start) front.length := by
  have hlength := length_endRecord count size start
  have hfound : lastEnd (front ++ endRecord count size start).length none 0
      (front ++ endRecord count size start) = some front.length := by
    have hfind := lastEnd_append (List.prefix_append endSignature _) hlength front none 0
    rwa [Nat.zero_add, ← hlength, ← List.length_append] at hfind
  have hroom :
      ¬ front.length + endSize + 0xFFFF < (front ++ endRecord count size start).length := by
    rw [List.length_append, hlength]
    omega
  have hdisk : ¬ ((EndRecord.telling count size start).overflows = false ∧
      (EndRecord.telling count size start).disk ≠
        (EndRecord.telling count size start).directoryDisk) := fun h => h.2 rfl
  simp only [extent?, hfound, Option.bind_eq_bind, Option.bind_some, if_neg hroom, List.drop_left,
    EndRecord.read?_endRecord, if_neg hdisk]
  rfl

/-- Where a locator of an archive would stand. -/
theorem locator?_append_endRecord (front : Bytes) (count size start : Nat) :
    (EndRecord.telling count size start).locator? (front ++ endRecord count size start) =
      if front.length < locatorSize then none
      else
        Locator.read? (front.drop (front.length - locatorSize) ++ endRecord count size start) := by
  have hlength := length_endRecord count size start
  have hcomment : (EndRecord.telling count size start).commentLength = 0 := rfl
  simp only [EndRecord.locator?, hcomment, List.length_append, hlength]
  by_cases hshort : front.length < locatorSize
  · rw [if_pos (by omega), if_pos hshort]
  · have hplace : front.length + endSize - (locatorSize + endSize + 0) =
        front.length - locatorSize := by omega
    rw [if_neg (by omega), if_neg hshort, hplace, List.drop_append_of_le_length (Nat.sub_le _ _)]

/-- Without a wide record the end record gives the extent. -/
theorem extent?_plain {front : Bytes} {count size start : Nat} (hcount : count < 0xFFFF)
    (hsize : size < wideMark) (hstart : start < wideMark) (hfront : front.length = start + size)
    (hnone : ¬ locatorSignature <+: front.drop (front.length - locatorSize)) :
    extent? (front ++ endRecord count size start) = some ⟨start, count, 0⟩ := by
  have hlocator : (EndRecord.telling count size start).locator?
      (front ++ endRecord count size start) = none := by
    rw [locator?_append_endRecord]
    split
    · rfl
    · rename_i hlong
      have hprefix : ¬ locatorSignature <+:
          front.drop (front.length - locatorSize) ++ endRecord count size start := by
        intro hprefix
        refine hnone (List.prefix_of_prefix_length_le hprefix (List.prefix_append _ _) ?_)
        rw [List.length_drop, Nat.sub_sub_self (Nat.not_lt.1 hlong)]
        decide
      rw [Locator.read?, takeSignature?, if_neg (mt List.isPrefixOf_iff_prefix.1 hprefix)]
      rfl
  rw [extent?_append_endRecord, hlocator]
  dsimp only
  have htelling : EndRecord.telling count size start = ⟨0, 0, count, count, size, start, 0⟩ := by
    rw [EndRecord.telling, Nat.min_eq_left (by omega), Nat.min_eq_left (by omega),
      Nat.min_eq_left (by omega)]
  rw [htelling, EndRecord.extent?]
  dsimp only
  rw [if_neg (by omega), hfront, Nat.add_sub_cancel, Nat.sub_self, Nat.add_zero]

/-- The locator takes as many bytes as a reader looks for. -/
theorem length_locator (start : Nat) : (locator start).length = locatorSize := by
  simp only [locator, List.length_append, Bytes.length_ofNat]
  rfl

/-- The wide end record takes 56 bytes. -/
theorem length_wideEndRecord {fields : Bytes} (h : fields.length = 12) (count size start : Nat) :
    (wideEndRecord fields count size start).length = 56 := by
  simp only [wideEndRecord, List.length_append, Bytes.length_ofNat, h]
  rfl

/-- The locator is read as the place that it tells. -/
theorem Locator.read?_locator {start : Nat} (h : start < UInt64.size) (rest : Bytes) :
    Locator.read? (locator start ++ rest) = some ⟨0, start⟩ := by
  simp only [locator, List.append_assoc]
  refine (bind_of_eq_some (takeSignature?_append _ _)).trans ?_
  refine (bind_of_eq_some (Bytes.takeNat?_four (by decide) _)).trans ?_
  refine (bind_of_eq_some (Bytes.takeNat?_eight h _)).trans ?_
  exact bind_of_eq_some (Bytes.cut?_append (Bytes.length_ofNat 4 1) _)

/-- The wide end record is read as the count and the start that it tells. -/
theorem WideEndRecord.read?_wideEndRecord {fields : Bytes} (hfields : fields.length = 12)
    {count start : Nat} (hcount : count < UInt64.size) (hstart : start < UInt64.size) (size : Nat)
    (rest : Bytes) :
    WideEndRecord.read? (wideEndRecord fields count size start ++ rest) =
      some ⟨0, 0, count, start⟩ := by
  simp only [wideEndRecord, List.append_assoc]
  refine (bind_of_eq_some (takeSignature?_append _ _)).trans ?_
  refine (bind_of_eq_some (Bytes.cut?_append hfields _)).trans ?_
  refine (bind_of_eq_some (Bytes.takeNat?_four (by decide) _)).trans ?_
  refine (bind_of_eq_some (Bytes.takeNat?_four (by decide) _)).trans ?_
  refine (bind_of_eq_some (Bytes.cut?_append (Bytes.length_ofNat 8 _) _)).trans ?_
  refine (bind_of_eq_some (Bytes.takeNat?_eight hcount _)).trans ?_
  refine (bind_of_eq_some (Bytes.cut?_append (Bytes.length_ofNat 8 _) _)).trans ?_
  exact bind_of_eq_some (Bytes.takeNat?_eight hstart _)

/-- A wide end record is found where it begins. -/
theorem firstWideEnd_of_prefix {last position : Nat} {bytes : Bytes} (h : position ≤ last)
    (hsignature : wideEndSignature <+: bytes) :
    firstWideEnd last position bytes = some position := by
  cases bytes with
  | nil => exact absurd (List.prefix_nil.1 hsignature) (by decide)
  | cons b rest =>
    rw [firstWideEnd, if_neg (by omega), if_pos (List.isPrefixOf_iff_prefix.2 hsignature)]

/-- A wide end record gives the extent. -/
theorem extent?_wide {front fields : Bytes} {count size start : Nat} (hfields : fields.length = 12)
    (hcount : count < UInt64.size) (hstart : start < UInt64.size)
    (hfront : front.length < UInt64.size) :
    extent? (front ++ (wideEndRecord fields count size start ++ (locator front.length ++
      endRecord count size start))) = some ⟨start, count, 0⟩ := by
  have hrecord := length_wideEndRecord hfields count size start
  have hplace := length_locator front.length
  -- all that is in front of the end record
  have hwhole : front ++ (wideEndRecord fields count size start ++ (locator front.length ++
      endRecord count size start)) = (front ++ (wideEndRecord fields count size start ++
        locator front.length)) ++ endRecord count size start := by
    simp only [List.append_assoc]
  generalize hbefore : front ++ (wideEndRecord fields count size start ++ locator front.length) =
    before at hwhole
  have hlength : before.length = front.length + 56 + locatorSize := by
    rw [← hbefore, List.length_append, List.length_append, hrecord, hplace]
    omega
  have hlast : before.drop (before.length - locatorSize) = locator front.length := by
    rw [hlength, Nat.add_sub_cancel, ← hbefore, ← List.append_assoc]
    exact List.drop_left' (by rw [List.length_append, hrecord])
  rw [hwhole, extent?_append_endRecord, locator?_append_endRecord, if_neg (by omega), hlast,
    Locator.read?_locator hfront]
  dsimp only
  rw [if_neg fun h => h.2 rfl, ← hwhole]
  have hfound : firstWideEnd (before.length - wideEndDistance) front.length
      (wideEndRecord fields count size start ++ (locator front.length ++
        endRecord count size start)) = some front.length := by
    refine firstWideEnd_of_prefix ?_ ((List.prefix_append _ _).trans (List.prefix_append _ _))
    rw [hlength]
    simp only [wideEndDistance, locatorSize]
    omega
  have hpositions : ¬ before.length < wideEndDistance := by
    rw [hlength]
    simp only [wideEndDistance, locatorSize]
    omega
  simp only [Locator.extent?, if_neg hpositions, hfound, List.drop_left,
    WideEndRecord.read?_wideEndRecord hfields hcount hstart, Option.bind_eq_bind, Option.bind_some]
  rw [if_neg fun h => h rfl, Nat.sub_self, Nat.add_zero, if_neg (by omega)]

/-! ## Archives -/

/-- Each member takes at least one byte. -/
theorem length_le_length_locals (members : List Member) :
    members.length ≤ (locals members).length := by
  induction members with
  | nil => exact Nat.le_refl 0
  | cons m members ih =>
    have hsize := size_lt_length_localPart m
    rw [locals_cons, List.length_append, List.length_cons]
    omega

/-- The end of an archive tells where its directory is. -/
theorem extent?_of_ending {front ending : Bytes} {count size start : Nat}
    (h : Ending count size start front ending) (hfront : front.length = start + size)
    (hlength : front.length < UInt64.size) (hcount : count < UInt64.size) :
    extent? (front ++ ending) = some ⟨start, count, 0⟩ := by
  cases h with
  | plain hentries hsize hstart hnone => exact extent?_plain hentries hsize hstart hfront hnone
  | wide hfields => exact extent?_wide hfields hcount (by omega) hlength

/-- An archive is read as the files that it holds. -/
theorem read_of_holds {archive : Bytes} {files : List Entry} (h : Holds archive files) :
    read archive = .ok files := by
  obtain ⟨hending, hlength⟩ := h
  rename_i members ending
  have hcount := length_le_length_locals members
  rw [List.length_append, List.length_append] at hlength
  have hextent := extent?_of_ending hending List.length_append
    (by rw [List.length_append]; omega) (by omega)
  have hdirectory : directory? (locals members ++ centrals 0 members ++ ending) =
      some (headersOf 0 members) := by
    have hheaders := headers?_centrals members 0 (by omega) ending
    simp only [directory?, hextent, Option.bind_eq_bind, Option.bind_some]
    rw [List.append_assoc, List.drop_left, hheaders]
  have hfiles := mapM_readEntry members 0 (centrals 0 members ++ ending)
    (List.append_assoc _ _ _)
  rw [read, hdirectory]
  dsimp only
  rw [hfiles]
  exact congrArg Except.ok (by rw [List.filterMap_map]; simp)

/-- An archive with files begins with a local header. -/
theorem prefix_of_holds {archive : Bytes} {files : List Entry} (h : Holds archive files)
    (hne : files ≠ []) : localSignature <+: archive := by
  obtain ⟨-, -⟩ := h
  rename_i members ending
  cases members with
  | nil => contradiction
  | cons m members =>
    rw [locals_cons, Member.localPart, List.append_assoc, List.append_assoc, List.append_assoc]
    exact List.prefix_append _ _

/-! ## Archives without anything besides -/

/-- A file of which nothing else is said. -/
def Member.stored (e : Entry) (path : PlainPath e.path) : Member where
  entry := e
  path := path
  localFields := Bytes.ofNat 2 20 ++ Bytes.ofNat 2 0 ++ Bytes.ofNat 2 0 ++ Bytes.ofNat 4 0 ++
    Bytes.ofNat 4 (Checksum.crc32 e.content).toNat ++ Bytes.ofNat 4 e.content.length ++
    Bytes.ofNat 4 e.content.length
  localFields_length := by simp only [List.length_append, Bytes.length_ofNat]
  localExtra := []
  localExtra_length := by decide
  versions := Bytes.ofNat 2 20 ++ Bytes.ofNat 2 20
  versions_length := rfl
  flags := 0
  flags_lt := by decide
  plain := rfl
  time := Bytes.ofNat 4 0
  time_length := rfl
  attributes := Bytes.ofNat 2 0 ++ Bytes.ofNat 2 0 ++ Bytes.ofNat 4 0
  attributes_length := rfl
  comment := []
  comment_length := by decide

/-- A number that fits in a narrow field is written there as it is. -/
theorem narrow_of_lt {n : Nat} (h : n < wideMark) : narrow n = Bytes.ofNat 4 n := by
  rw [narrow, Nat.min_eq_left (Nat.le_of_lt h)]

/-- A file is stored as the member of its plain path and its content. -/
theorem localPart_stored (e : Entry) (path : PlainPath e.path) :
    (Member.stored e path).localPart = localPart e := by
  simp only [Member.localPart, Member.stored, Member.name, localPart, sharedFields,
    List.append_assoc, List.nil_append, List.length_nil]

/-- The central part of a stored file is that of its member. -/
theorem centralPart_stored {e : Entry} (path : PlainPath e.path) {start : Nat}
    (hsize : e.content.length < wideMark) (hstart : start < wideMark) :
    (Member.stored e path).centralPart start = centralPart start e := by
  have hfield : wideField (Member.stored e path).size start = [] := by
    have h₁ : wide (Member.stored e path).size = [] := wide_eq_nil_iff.2 hsize
    rw [wideField, h₁, wide_eq_nil_iff.2 hstart]
    rfl
  have hnarrow : narrow (Member.stored e path).size = Bytes.ofNat 4 e.content.length :=
    narrow_of_lt hsize
  simp only [Member.centralPart, hfield, hnarrow, narrow_of_lt hstart, centralPart, sharedFields,
    List.append_assoc, List.nil_append, List.length_nil]
  simp only [Member.stored, Member.name, List.append_assoc, List.append_nil, List.length_nil]

/-- The members of stored files hold these files. -/
theorem map_entry_stored {files : List Entry} (hpaths : ∀ e ∈ files, PlainPath e.path) :
    (files.pmap Member.stored hpaths).map Member.entry = files := by
  rw [List.map_pmap]
  exact (List.pmap_eq_map hpaths).trans (List.map_id _)

/-- The parts of stored files are those of their members. -/
theorem locals_stored {files : List Entry} (hpaths : ∀ e ∈ files, PlainPath e.path) :
    locals (files.pmap Member.stored hpaths) = files.flatMap localPart := by
  induction files with
  | nil => rfl
  | cons e files ih => rw [List.pmap_cons, locals_cons, localPart_stored, ih, List.flatMap_cons]

/-- The central directory of stored files is that of their members. -/
theorem centrals_stored {files : List Entry} (hpaths : ∀ e ∈ files, PlainPath e.path) (start : Nat)
    (h : start + (files.flatMap localPart).length < wideMark) :
    centrals start (files.pmap Member.stored hpaths) = centralParts start files := by
  induction files generalizing start with
  | nil => rfl
  | cons e files ih =>
    have hpath := hpaths e List.mem_cons_self
    have hsize : e.content.length < (localPart e).length := by
      have hlt := size_lt_length_localPart (Member.stored e hpath)
      rwa [localPart_stored] at hlt
    rw [List.flatMap_cons, List.length_append] at h
    rw [List.pmap_cons, centrals, centralPart_stored hpath (by omega) (by omega), localPart_stored,
      ih _ _ (by omega), centralParts]

/-- The archive that is written of files holds them, if all numbers fit and what is in front of the
end record does not look like a locator. -/
theorem holds_writeStored {files : List Entry} (hpaths : ∀ e ∈ files, PlainPath e.path)
    (hcount : files.length < 0xFFFF) (hlength : (writeStored files).length < wideMark)
    (hnone : ¬ locatorSignature <+:
      (writeStored files).drop ((writeStored files).length - (locatorSize + endSize))) :
    Holds (writeStored files) files := by
  have hlocals := locals_stored hpaths
  have hparts : (writeStored files).length = (files.flatMap localPart).length +
      (centralParts 0 files).length + endSize := by
    simp only [writeStored, List.length_append, Bytes.length_ofNat, endSignature, endSize]
    rfl
  have hcentrals := centrals_stored hpaths 0 (by omega)
  have hmembers : (files.pmap Member.stored hpaths).length = files.length := List.length_pmap
  have hfiles := map_entry_stored hpaths
  generalize files.pmap Member.stored hpaths = members at *
  have hwhole : writeStored files = locals members ++ centrals 0 members ++
      endRecord members.length (centrals 0 members).length (locals members).length := by
    rw [hlocals, hcentrals, hmembers, endRecord, narrow_of_lt (by omega), narrow_of_lt (by omega),
      Nat.min_eq_left (by omega)]
    simp only [writeStored, List.append_assoc]
  have hending : Ending members.length (centrals 0 members).length (locals members).length
      (locals members ++ centrals 0 members)
      (endRecord members.length (centrals 0 members).length (locals members).length) := by
    refine .plain (by omega) (by rw [hcentrals]; omega) (by rw [hlocals]; omega) ?_
    have hdrop : (writeStored files).drop ((writeStored files).length - (locatorSize + endSize)) =
        (locals members ++ centrals 0 members).drop
            ((locals members ++ centrals 0 members).length - locatorSize) ++
          endRecord members.length (centrals 0 members).length (locals members).length := by
      rw [← List.drop_append_of_le_length (Nat.sub_le _ _), ← hwhole, hparts, List.length_append,
        hlocals, hcentrals, Nat.add_sub_add_right]
    exact fun hprefix => hnone (hdrop ▸ hprefix.trans (List.prefix_append _ _))
  have hholds := Holds.mk hending (by
    rw [← hwhole]
    exact Nat.lt_trans hlength (by decide))
  rwa [hfiles, ← hwhole] at hholds

/-- What a file takes up in an archive besides its content, with a path of at most 99 bytes. -/
theorem length_parts_stored_le (e : Entry) (path : PlainPath e.path) (start : Nat) :
    (Member.stored e path).localPart.length + ((Member.stored e path).centralPart start).length ≤
      e.content.length + 302 := by
  have hshort := path.short
  have hfield := length_wideField_le (Member.stored e path).size start
  have hname : (Member.stored e path).name.length = e.path.toList.length := Bytes.length_ofAscii _
  simp only [Member.localPart, Member.centralPart, localSignature, centralSignature, narrow,
    List.length_append, Bytes.length_ofNat, (Member.stored e path).localFields_length,
    (Member.stored e path).versions_length, (Member.stored e path).time_length,
    (Member.stored e path).attributes_length, hname]
  simp only [Member.stored, List.length_cons, List.length_nil] at hfield ⊢
  omega

/-- A bound of what files take up in an archive, without its end. -/
def room : List Entry → Nat
  | [] => 0
  | e :: files => e.content.length + 302 + room files

/-- Files are held by some archive, how many they are and how long, unless it were too long for a
position in it to have eight bytes. -/
theorem exists_holds {files : List Entry} (hpaths : ∀ e ∈ files, PlainPath e.path)
    (hsize : room files + 98 < UInt64.size) : ∃ archive, Holds archive files := by
  have hfiles := map_entry_stored hpaths
  have hlength : ∀ start, (locals (files.pmap Member.stored hpaths)).length +
      (centrals start (files.pmap Member.stored hpaths)).length ≤ room files := by
    clear hsize hfiles
    induction files with
    | nil => exact fun _ => Nat.le_refl 0
    | cons e files ih =>
      intro start
      have hfile := length_parts_stored_le e (hpaths e List.mem_cons_self) start
      have hrest := ih (fun e he => hpaths e (List.mem_cons_of_mem _ he))
        (start + (Member.stored e (hpaths e List.mem_cons_self)).localPart.length)
      rw [List.pmap_cons, locals_cons, centrals, List.length_append, List.length_append, room]
      omega
  generalize files.pmap Member.stored hpaths = members at hfiles hlength
  have hholds := Holds.mk (.wide (List.length_replicate (n := 12) (a := (0 : UInt8))) :
    Ending members.length (centrals 0 members).length (locals members).length
      (locals members ++ centrals 0 members) _) (by
    have hmembers := hlength 0
    simp only [List.length_append, length_wideEndRecord List.length_replicate, length_locator,
      length_endRecord, locatorSize, endSize]
    omega)
  exact ⟨_, hfiles ▸ hholds⟩

end CourseQuery.Zip
