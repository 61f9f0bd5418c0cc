import CourseQuery.Proofs.Archive.Tar
import CourseQuery.Proofs.Archive.Zip
import CourseQuery.Proofs.Import.Accounting

/-!
# Zip and tar import alike

An import tells the form of an archive by its first bytes. A zip archive of files begins with the
signature of a local header and a tar archive of them does not, since no path has such a character;
and both are read as the same files. So what comes of an import, the records, the warnings or the
failure, does not depend on the form.
-/

set_option autoImplicit false

namespace CourseQuery.Import

open Archive (Entry PlainPath)

variable {files : List Entry} {archive : Bytes}

/-- The files of a zip archive are those that it holds. -/
theorem files_zip (h : Zip.Holds archive files) (hne : files ≠ []) :
    Import.files archive = .ok files := by
  have hzip := Zip.prefix_of_holds h hne
  rw [Import.files, if_pos (List.isPrefixOf_iff_prefix.2 hzip), Zip.read_of_holds h]

/-- The files of a tar archive are those that it holds. -/
theorem files_tar (h : Tar.Holds archive files) : Import.files archive = .ok files := by
  have htar : ¬ Zip.localSignature <+: archive := by
    rintro ⟨rest, rfl⟩
    have hthird : (0x03 : UInt8) ∈ (Zip.localSignature ++ rest).take 100 := by
      rw [List.take_append]
      exact List.mem_append_left _ (by decide)
    exact absurd (Tar.mem_take_of_holds h hthird) (by decide)
  rw [Import.files, if_neg (mt List.isPrefixOf_iff_prefix.1 htar), Tar.read_of_holds h]

/-- A zip archive and a tar archive that hold the same files are imported alike: with the same
records in order and the same warnings, or the same failure. -/
theorem ofArchive_zip_eq_tar {zip tar : Bytes} (hne : files ≠ []) (hzip : Zip.Holds zip files)
    (htar : Tar.Holds tar files) (kind : DatasetKind) :
    ofArchive zip kind = ofArchive tar kind := by
  rw [ofArchive, ofArchive, files_zip hzip hne, files_tar htar]

/-- The same files are imported in the same way from both containers. -/
theorem ofArchive_mixedFiles :
    mixedFiles ≠ [] ∧ Zip.Holds (Zip.writeStored mixedFiles) mixedFiles ∧
      Tar.Holds (Tar.write mixedFiles) mixedFiles ∧
      ofArchive (Zip.writeStored mixedFiles) .courses =
        ofArchive (Tar.write mixedFiles) .courses := by
  have hpaths : ∀ e ∈ mixedFiles, PlainPath e.path := by decide +kernel
  have hsizes : ∀ e ∈ mixedFiles, e.content.length < Tar.sizeLimit := by decide +kernel
  have hne : mixedFiles ≠ [] := List.cons_ne_nil _ _
  have hzip : Zip.Holds (Zip.writeStored mixedFiles) mixedFiles :=
    Zip.holds_writeStored hpaths (by decide) (by decide +kernel) (by decide +kernel)
  have htar := Tar.holds_write hpaths hsizes
  exact ⟨hne, hzip, htar, ofArchive_zip_eq_tar hne hzip htar .courses⟩

end CourseQuery.Import
