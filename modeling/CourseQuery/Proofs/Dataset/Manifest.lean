import CourseQuery.Dataset.Manifest
import CourseQuery.Proofs.Json.Value
import CourseQuery.Proofs.Json.WordSize
import CourseQuery.Proofs.Text.Utf8

/-!
# Manifests read back

A manifest is read from the bytes of a text whose members spell it, each once and in range, and from
no others. So it is read back from its own bytes, whatever its texts are, when the number of rows
has 64 bits.
-/

set_option autoImplicit false

namespace CourseQuery

namespace DatasetKind

/-- A kind is found under its name. -/
theorem ofName?_name (kind : DatasetKind) : ofName? kind.name = some kind := by
  cases kind <;> rfl

/-- Only its name names a kind. -/
theorem ofName?_eq_some_iff {s : String} {kind : DatasetKind} :
    ofName? s = some kind ↔ s = kind.name := by
  constructor
  · intro h
    unfold ofName? at h
    split at h
    · rename_i hs
      rw [hs, ← Option.some.inj h]
      rfl
    · split at h
      · rename_i hs
        rw [hs, ← Option.some.inj h]
        rfl
      · contradiction
  · rintro rfl
    exact kind.ofName?_name

/-- A kind is its name or an object with the name as its one member. -/
theorem ofJson?_eq_some_iff {v : Json} {kind : DatasetKind} :
    ofJson? v = some kind ↔ v = .string kind.name ∨ v = .object [(kind.name, .null)] := by
  unfold ofJson?
  split
  · simp [ofName?_eq_some_iff]
  · simp [ofName?_eq_some_iff]
  · rename_i hstring hobject
    refine iff_of_false nofun ?_
    rintro (rfl | rfl)
    · exact hstring _ rfl
    · exact hobject _ rfl

end DatasetKind

namespace Manifest

variable {m : Manifest}

/-- The members of an object spell a manifest: each of its parts is there once, and the numbers are
in range. -/
structure SpelledBy (m : Manifest) (members : List (String × Json)) : Prop where
  id : Json.valuesOf "id" members = [.string m.id]
  kind : ∃ v, Json.valuesOf "kind" members = [v] ∧
    (v = .string m.kind.name ∨ v = .object [(m.kind.name, .null)])
  rows : Json.valuesOf "num_rows" members = [.integer m.rows]
  counted : m.rows < UInt64.size
  createdAt : Json.valuesOf "created_at" members = [.string m.createdAt]
  checksum : Json.valuesOf "checksum" members = [.integer m.checksum.toNat]
  version : Json.valuesOf "format_version" members = [.integer m.version.toNat]

/-- A text is read as a manifest exactly when it is a structure with the members of a manifest that
spell it. -/
theorem parse?_eq_some_iff {s : String} :
    parse? s = some m ↔ ∃ members, Json.fields? memberNames s = some members ∧
      m.SpelledBy members := by
  simp only [parse?, Option.bind_eq_bind, Option.bind_eq_some_iff, Json.only?_eq_some_iff,
    Json.string?_eq_some_iff, Json.natBelow?_eq_some_iff, DatasetKind.ofJson?_eq_some_iff,
    Option.some.injEq]
  refine exists_congr fun members => and_congr_right fun _ => ?_
  constructor
  · rintro ⟨_, hid, _, rfl, v, hv, kind, hkind, _, hrows, rows, ⟨rfl, hcounted⟩, _, hcreated, _,
      rfl, _, hchecksum, checksum, ⟨rfl, hword⟩, _, hversion, version, ⟨rfl, hbyte⟩, rfl⟩
    refine ⟨hid, ⟨v, hv, hkind⟩, hrows, hcounted, hcreated, ?_, ?_⟩
    · rw [UInt32.toNat_ofNat_of_lt' hword]
      exact hchecksum
    · rw [UInt8.toNat_ofNat_of_lt' hbyte]
      exact hversion
  · rintro ⟨hid, ⟨v, hv, hkind⟩, hrows, hcounted, hcreated, hchecksum, hversion⟩
    exact ⟨_, hid, _, rfl, v, hv, m.kind, hkind, _, hrows, m.rows, ⟨rfl, hcounted⟩, _, hcreated, _,
      rfl, _, hchecksum, _, ⟨rfl, m.checksum.toNat_lt_size⟩, _, hversion, _,
      ⟨rfl, m.version.toNat_lt_size⟩, by rw [UInt32.ofNat_toNat, UInt8.ofNat_toNat]⟩

/-- A file holds a manifest if it is the text of one. -/
theorem ofBytes_eq_ok_iff {file : Bytes} :
    ofBytes file = .ok m ↔ ∃ s, file = Text.Utf8.encode s ∧ parse? s = some m := by
  simp only [← Text.Utf8.decode?_eq_some_iff]
  unfold ofBytes
  cases Text.Utf8.decode? file with
  | none => simp
  | some s => cases hparse : parse? s <;> simp [hparse]

/-- The members of a manifest can be read back if the number of rows fits in 64 bits. -/
theorem readable_members (h : m.rows < UInt64.size) :
    ∀ v ∈ m.members, v.1 ∈ memberNames ∧ v.2.Readable := by
  have hchecksum : m.checksum.toNat < UInt64.size :=
    Nat.lt_trans m.checksum.toNat_lt_size (by decide)
  have hversion : m.version.toNat < UInt64.size :=
    Nat.lt_trans m.version.toNat_lt_size (by decide)
  simp only [members, memberNames, List.forall_mem_cons, List.not_mem_nil, false_implies,
    implies_true, and_true]
  exact ⟨⟨by decide, .string _⟩, ⟨by decide, .string _⟩,
    ⟨by decide, .integer (Json.fitsWord_natCast.2 h)⟩, ⟨by decide, .string _⟩,
    ⟨by decide, .integer (Json.fitsWord_natCast.2 hchecksum)⟩,
    ⟨by decide, .integer (Json.fitsWord_natCast.2 hversion)⟩⟩

/-- The members of a manifest spell it. -/
theorem spelledBy_members (h : m.rows < UInt64.size) : m.SpelledBy m.members where
  id := by simp [Json.valuesOf, members]
  kind := ⟨.string m.kind.name, by simp [Json.valuesOf, members], .inl rfl⟩
  rows := by simp [Json.valuesOf, members]
  counted := h
  createdAt := by simp [Json.valuesOf, members]
  checksum := by simp [Json.valuesOf, members]
  version := by simp [Json.valuesOf, members]

/-- A manifest is read back from its text. -/
theorem parse?_text (h : m.rows < UInt64.size) : parse? m.text = some m := by
  have hfields : Json.fields? memberNames m.text = some m.members :=
    Json.fields?_membersByLine (List.cons_ne_nil _ _) (readable_members h)
  exact parse?_eq_some_iff.2 ⟨m.members, hfields, spelledBy_members h⟩

/-- A manifest that counts more rows than fit in 64 bits is not read back. -/
theorem rows_lt_of_parse?_text {found : Manifest} (h : parse? m.text = some found) :
    m.rows < UInt64.size := by
  by_contra hlarge
  obtain ⟨members, hmembers, hspelled⟩ := parse?_eq_some_iff.1 h
  have hrows : Json.fitsWord m.rows = false := by
    rw [← Bool.not_eq_true, Json.fitsWord_natCast]
    exact hlarge
  have hfront : ∀ v ∈ [("id", Json.string m.id), ("kind", Json.string m.kind.name)],
      v.1 ∈ memberNames ∧ v.2.Readable := by
    simp only [memberNames, List.forall_mem_cons, List.not_mem_nil, false_implies, implies_true,
      and_true]
    exact ⟨⟨by decide, .string _⟩, ⟨by decide, .string _⟩⟩
  have hsplit : m.members = [("id", .string m.id), ("kind", .string m.kind.name)] ++
      ("num_rows", .integer m.rows) :: m.members.drop 3 := rfl
  rw [text, hsplit] at hmembers
  obtain ⟨x, hx⟩ := Json.real_of_fields? hrows hfront (by decide) hmembers
  have hvalue := Json.mem_valuesOf.2 hx
  rw [hspelled.rows, List.mem_singleton] at hvalue
  exact absurd hvalue nofun

/-- A manifest that is written is read back as itself if the number of rows fits in 64 bits, and
else not at all. -/
theorem ofBytes_toBytes_eq_ok_iff {found : Manifest} :
    ofBytes m.toBytes = .ok found ↔ found = m ∧ m.rows < UInt64.size := by
  rw [ofBytes_eq_ok_iff]
  constructor
  · rintro ⟨s, hs, hread⟩
    obtain rfl : m.text = s := Option.some.inj
      (((Text.Utf8.decode?_encode m.text).symm.trans (congrArg Text.Utf8.decode? hs)).trans
        (Text.Utf8.decode?_encode s))
    have hrows := rows_lt_of_parse?_text hread
    exact ⟨Option.some.inj (hread.symm.trans (parse?_text hrows)), hrows⟩
  · rintro ⟨rfl, hrows⟩
    exact ⟨found.text, rfl, parse?_text hrows⟩

/-- A manifest is read back from its bytes. -/
theorem ofBytes_toBytes (h : m.rows < UInt64.size) : ofBytes m.toBytes = .ok m :=
  ofBytes_toBytes_eq_ok_iff.2 ⟨rfl, h⟩

end Manifest

end CourseQuery
