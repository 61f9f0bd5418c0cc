import CourseQuery.CommandLine.Workspace
import CourseQuery.Proofs.Text.Split

/-!
# Opening a folder again

Opening a folder only ever adds to the workspace, and it goes to the same place each time: a folder
that was opened once is there, with every folder on the way to it, so opening it again finds it
where it was and leaves everything as it is.
-/

set_option autoImplicit false

namespace CourseQuery.CommandLine.Workspace

/-- Every folder of a workspace is one of another workspace too. -/
def Within (w v : Workspace) : Prop :=
  ∀ place, (w.folder place).isSome → (v.folder place).isSome

variable {w v : Workspace} {place : Place}

/-- Every workspace has its own folders. -/
theorem Within.refl (w : Workspace) : w.Within w :=
  fun _ h => h

/-- Folders that stay in a first change and in a second stay in both. -/
theorem Within.trans {u : Workspace} (h : w.Within v) (h' : v.Within u) : w.Within u :=
  fun place hplace => h' place (h place hplace)

/-- Setting what a folder holds takes no folder away. -/
theorem within_setFolder (w : Workspace) (place : Place) (folder : Folder) :
    w.Within (w.setFolder place folder) := by
  intro other h
  unfold setFolder
  dsimp only
  split
  · rfl
  · exact h

/-- A folder holds what it was set to. -/
theorem folder_setFolder (w : Workspace) (place : Place) (folder : Folder) :
    (w.setFolder place folder).folder place = some folder :=
  if_pos rfl

/-- Setting a folder to what it holds changes nothing. -/
theorem setFolder_self {folder : Folder} (h : w.folder place = some folder) :
    w.setFolder place folder = w := by
  have hfolder : (w.setFolder place folder).folder = w.folder := by
    funext other
    by_cases hother : other = place
    · rw [hother, folder_setFolder, h]
    · exact if_neg hother
  cases w
  exact congrArg Workspace.mk hfolder

/-- Making a folder takes no folder away. -/
theorem within_makeFolder (w : Workspace) (place : Place) (name : String) :
    w.Within (w.makeFolder place name) := by
  unfold makeFolder
  split
  · exact within_setFolder w _ _
  · exact (within_setFolder w _ _).trans (within_setFolder _ _ _)

/-- Where one more name leads, if nothing is in the way, there is a folder. -/
theorem enter_some {name : String} {o : Opening} {there : Place}
    (h : enter ⟨w, some place⟩ name = o) (hplace : o.place = some there) :
    there = next place name ∧ w.Within o.workspace ∧ (o.workspace.folder there).isSome := by
  subst h
  unfold enter at hplace ⊢
  dsimp only at hplace ⊢
  split at hplace
  · rename_i hfolder
    rw [if_pos hfolder]
    obtain rfl := Option.some.inj hplace
    exact ⟨rfl, .refl w, hfolder⟩
  · rename_i hfolder
    rw [if_neg hfolder]
    split at hplace
    · rename_i hfree
      rw [if_pos hfree]
      obtain rfl := Option.some.inj hplace
      refine ⟨rfl, within_makeFolder w place name, ?_⟩
      rw [makeFolder, folder_setFolder]
      rfl
    · contradiction

/-- When something is in the way no further name leads anywhere. -/
theorem foldl_enter_none (w : Workspace) (names : List String) :
    names.foldl enter ⟨w, none⟩ = ⟨w, none⟩ := by
  induction names with
  | nil => rfl
  | cons name names ih => exact ih

/-- A walk comes to the same end where there are more folders. -/
theorem foldlM_visit?_of_within (hv : w.Within v) {names : List String} {there : Place}
    (h : names.foldlM w.visit? place = some there) : names.foldlM v.visit? place = some there := by
  induction names generalizing place with
  | nil => exact h
  | cons name names ih =>
    rw [List.foldlM_cons, Option.bind_eq_bind, Option.bind_eq_some_iff] at h
    obtain ⟨mid, hvisit, hmore⟩ := h
    rw [visit?, Option.ite_none_right_eq_some] at hvisit
    have hstep : v.visit? place name = some mid := by
      rw [visit?, if_pos (hv _ hvisit.1), hvisit.2]
    rw [List.foldlM_cons, hstep]
    exact ih hmore

/-- Where a walk comes to an end, nothing need be made on the way. -/
theorem openFrom_of_visit? {names : List String} {there : Place}
    (h : names.foldlM w.visit? place = some there) :
    w.openFrom place names = ⟨w, some there⟩ := by
  induction names generalizing place with
  | nil => rw [← Option.some.inj h, openFrom, List.foldl_nil]
  | cons name names ih =>
    rw [List.foldlM_cons, Option.bind_eq_bind, Option.bind_eq_some_iff] at h
    obtain ⟨mid, hvisit, hmore⟩ := h
    rw [visit?, Option.ite_none_right_eq_some] at hvisit
    have hstep : enter ⟨w, some place⟩ name = ⟨w, some mid⟩ := by
      unfold enter
      dsimp only
      rw [if_pos hvisit.1, hvisit.2]
    rw [openFrom, List.foldl_cons, hstep]
    exact ih hmore

/-- Opening what is behind names adds to the workspace, and the folder that was opened can be walked
to from then on. -/
theorem openFrom_some {names : List String} {there : Place}
    (h : (w.openFrom place names).place = some there) :
    w.Within (w.openFrom place names).workspace ∧
      names.foldlM (w.openFrom place names).workspace.visit? place = some there := by
  unfold openFrom at h ⊢
  induction names generalizing w place with
  | nil => exact ⟨.refl w, h⟩
  | cons name names ih =>
    rw [List.foldl_cons] at h ⊢
    cases hfirst : enter ⟨w, some place⟩ name with
    | mk w₁ place₁ =>
      rw [hfirst] at h
      cases place₁ with
      | none =>
        rw [foldl_enter_none] at h
        contradiction
      | some place₁ =>
        obtain ⟨rfl, hwithin, hfolder⟩ := enter_some hfirst rfl
        obtain ⟨hrest, hwalk⟩ := ih h
        refine ⟨hwithin.trans hrest, ?_⟩
        -- the folder of the first name was there before the rest was opened
        rw [List.foldlM_cons, visit?, if_pos (hrest _ hfolder)]
        exact hwalk

/-- A folder that was opened is reached by its path from then on. -/
theorem reach?_openFolder {path : String} (h : (w.openFolder path).place = some place) :
    (w.openFolder path).workspace.reach? path = some place := by
  unfold openFolder at h ⊢
  unfold reach?
  cases hnames : names? path.toList with
  | none =>
    rw [hnames] at h
    contradiction
  | some names =>
    rw [hnames] at h
    exact (openFrom_some h).2

/-- A folder is reached at the same place where there are more folders. -/
theorem reach?_of_within {path : String} (hv : w.Within v) (h : w.reach? path = some place) :
    v.reach? path = some place := by
  unfold reach? at h ⊢
  rw [Option.bind_eq_bind, Option.bind_eq_some_iff] at h ⊢
  obtain ⟨names, hnames, hwalk⟩ := h
  exact ⟨names, hnames, foldlM_visit?_of_within hv hwalk⟩

/-- A path has a last name, so what it reaches was visited and is there. -/
theorem isSome_folder_of_reach? {path : String} (h : w.reach? path = some place) :
    (w.folder place).isSome := by
  unfold reach? names? at h
  split at h
  · have hne : (Text.split '/' path.toList).map String.ofList ≠ [] :=
      mt List.map_eq_nil_iff.1 (Text.split_ne_nil _ _)
    rw [← List.dropLast_concat_getLast hne, Option.bind_eq_bind, Option.bind_some,
      List.foldlM_append, Option.bind_eq_bind, Option.bind_eq_some_iff] at h
    obtain ⟨there, -, hlast⟩ := h
    simp only [List.foldlM_cons, List.foldlM_nil, visit?] at hlast
    split at hlast
    · rename_i hfolder
      rwa [← Option.some.inj hlast]
    · contradiction
  · contradiction

/-- A folder that is reached is opened without a change. -/
theorem openFolder_of_reach? {path : String} (h : w.reach? path = some place) :
    w.openFolder path = ⟨w, some place⟩ := by
  unfold reach? at h
  unfold openFolder
  cases hnames : names? path.toList with
  | none =>
    rw [hnames] at h
    contradiction
  | some names =>
    rw [hnames] at h
    exact openFrom_of_visit? h

/-- A folder that was opened is opened again at the same place, whatever it holds by then, and
opening it again changes nothing. -/
theorem openFolder_again {path : String} (h : (w.openFolder path).place = some place)
    (hv : (w.openFolder path).workspace.Within v) : v.openFolder path = ⟨v, some place⟩ :=
  openFolder_of_reach? (reach?_of_within hv (reach?_openFolder h))

/-- Opening a folder twice is opening it once. -/
theorem openFolder_openFolder {path : String} (h : (w.openFolder path).place = some place) :
    (w.openFolder path).workspace.openFolder path = w.openFolder path := by
  rw [openFolder_again h (.refl _), ← h]

end CourseQuery.CommandLine.Workspace
