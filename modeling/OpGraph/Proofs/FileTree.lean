import OpGraph.FileTree
import OpGraph.Proofs.Sequence

/-!
Files in a tree: a file is found at the place that its path leads to, where it was written last.
-/

namespace OpGraph

namespace FileTree

variable {t t' : FileTree}

theorem walk_eq_ok {parts spot spot' : List String} (hrun : t.walk spot parts = .ok spot') :
    spot' = parts.foldl advance spot := by
  induction parts generalizing spot with
  | nil =>
    cases hrun
    rfl
  | cons part rest ih =>
    unfold walk at hrun
    split at hrun
    · exact ih hrun
    · cases hrun

theorem files_makeDirectory {spot : List String} (hrun : t.makeDirectory spot = .ok t') :
    t'.files = t.files := by
  unfold makeDirectory at hrun
  split at hrun
  · cases hrun
    rfl
  · split at hrun
    · cases hrun
    · cases hrun
      rfl

theorem files_makeAlong {spot parts : List String} (hrun : t.makeAlong spot parts = .ok t') :
    t'.files = t.files := by
  induction parts generalizing t spot with
  | nil => exact files_makeDirectory hrun
  | cons part rest ih =>
    rw [makeAlong, bind_eq_ok_iff] at hrun
    obtain ⟨t₁, hmake, hrest⟩ := hrun
    exact (ih hrest).trans (files_makeDirectory hmake)

def placeOf (path : String) : String :=
  place ((Path.parts path).foldl advance [])

def Accepts (t : FileTree) (path : String) : Prop :=
  ∃ spot, t.walk [] (Path.parts path) = .ok spot ∧ t.isDirectory spot = false

theorem walk_of_directories (hsame : t'.directories = t.directories)
    {parts spot spot' : List String}
    (hrun : t.walk spot parts = .ok spot') : t'.walk spot parts = .ok spot' := by
  have hspot : ∀ spot, t'.isDirectory spot = t.isDirectory spot := by
    intro spot
    rw [isDirectory, hsame, isDirectory]
  induction parts generalizing spot with
  | nil => exact hrun
  | cons part rest ih =>
    unfold walk at hrun ⊢
    rw [hspot]
    split at hrun
    · next hdirectory =>
      rw [if_pos hdirectory]
      exact ih hrun
    · cases hrun

theorem Accepts.of_directories {path : String} (h : t.Accepts path)
    (hsame : t'.directories = t.directories) : t'.Accepts path := by
  obtain ⟨spot, hwalk, hfree⟩ := h
  refine ⟨spot, walk_of_directories hsame hwalk, ?_⟩
  rw [isDirectory, hsame, ← isDirectory, hfree]

theorem read_eq_ok_iff {path : String} {bytes : Bytes} :
    t.read path = .ok bytes ↔ t.Accepts path ∧ t.files[placeOf path]? = some bytes := by
  rw [read, bind_eq_ok_iff]
  constructor
  · rintro ⟨spot, hwalk, hrun⟩
    by_cases hdirectory : t.isDirectory spot
    · rw [if_pos hdirectory] at hrun
      cases hrun
    · refine ⟨⟨spot, hwalk, eq_false_of_ne_true hdirectory⟩, ?_⟩
      rw [if_neg hdirectory, walk_eq_ok hwalk] at hrun
      split at hrun
      · next hfile =>
        cases hrun
        exact hfile
      · cases hrun
  · rintro ⟨⟨spot, hwalk, hfree⟩, hfile⟩
    refine ⟨spot, hwalk, ?_⟩
    have hplace : t.file? spot = some bytes := by
      rw [file?, walk_eq_ok hwalk]
      exact hfile
    rw [hfree, hplace]
    rfl

theorem write_eq_ok_iff {path : String} {bytes : Bytes} : t.write path bytes = .ok t' ↔
    t.Accepts path ∧ t' = { t with files := t.files.insert (placeOf path) bytes } := by
  rw [write, bind_eq_ok_iff]
  constructor
  · rintro ⟨spot, hwalk, hrun⟩
    by_cases hdirectory : t.isDirectory spot
    · rw [if_pos hdirectory] at hrun
      cases hrun
    · refine ⟨⟨spot, hwalk, eq_false_of_ne_true hdirectory⟩, ?_⟩
      rw [if_neg hdirectory, walk_eq_ok hwalk] at hrun
      cases hrun
      rfl
  · rintro ⟨⟨spot, hwalk, hfree⟩, rfl⟩
    refine ⟨spot, hwalk, ?_⟩
    rw [hfree, walk_eq_ok hwalk]
    rfl

theorem read_of_write {path : String} {bytes : Bytes} (hrun : t.write path bytes = .ok t') :
    t'.read path = .ok bytes := by
  obtain ⟨haccepts, rfl⟩ := write_eq_ok_iff.mp hrun
  rw [read_eq_ok_iff]
  exact ⟨haccepts.of_directories rfl, Std.ExtTreeMap.getElem?_insert_self⟩

theorem read_of_write_of_ne {path other : String} {bytes bytes' : Bytes}
    (hrun : t.write path bytes = .ok t') (hne : placeOf other ≠ placeOf path)
    (hread : t.read other = .ok bytes') : t'.read other = .ok bytes' := by
  obtain ⟨-, rfl⟩ := write_eq_ok_iff.mp hrun
  obtain ⟨haccepts, hfile⟩ := read_eq_ok_iff.mp hread
  rw [read_eq_ok_iff]
  refine ⟨haccepts.of_directories rfl, ?_⟩
  rw [Std.ExtTreeMap.getElem?_insert, if_neg, hfile]
  rw [Std.LawfulEqCmp.compare_eq_iff_eq]
  exact hne.symm

theorem write_of_read {path : String} {bytes : Bytes} (hread : t.read path = .ok bytes) :
    t.write path bytes = .ok t := by
  obtain ⟨haccepts, hfile⟩ := read_eq_ok_iff.mp hread
  rw [write_eq_ok_iff]
  refine ⟨haccepts, ?_⟩
  have hsame : t.files.insert (placeOf path) bytes = t.files := by
    apply Std.ExtTreeMap.ext_getElem?
    intro place
    rw [Std.ExtTreeMap.getElem?_insert]
    split
    · next heq => rw [← Std.LawfulEqCmp.compare_eq_iff_eq.mp heq, hfile]
    · rfl
  rw [hsame]

theorem files_of_read {path : String} {bytes : Bytes} (hrun : t.read path = .ok bytes) :
    t.files[placeOf path]? = some bytes :=
  (read_eq_ok_iff.mp hrun).2

theorem files_of_write {path : String} {bytes : Bytes} (hrun : t.write path bytes = .ok t') :
    t'.files = t.files.insert (placeOf path) bytes := by
  rw [(write_eq_ok_iff.mp hrun).2]

end FileTree

end OpGraph
