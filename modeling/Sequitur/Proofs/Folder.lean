import Sequitur.Archive
import Sequitur.Proofs.Failure

/-! # Files that were written

An entry that is put at a path is found there, and nothing else in the tree
changes. No directory on the way to a file can be the file itself, so its
name leads to the same place after it was written, and its text is read back.
-/

namespace Sequitur.Folder

theorem lookup_filter_of_ne {path other : Path} (hne : other ≠ path)
    (entries : List (Path × Entry)) :
    (entries.filter fun entry => entry.1 != path).lookup other = entries.lookup other := by
  induction entries with
  | nil => rfl
  | cons entry entries ih =>
      obtain ⟨here, found⟩ := entry
      by_cases hhere : here = path
      · have hother : (other == here) = false := by
          rw [hhere]
          exact beq_eq_false_iff_ne.mpr hne
        rw [List.filter_cons_of_neg (by simp [hhere]), ih, List.lookup_cons, hother]
      · rw [List.filter_cons_of_pos (by simp [hhere]), List.lookup_cons, List.lookup_cons, ih]

theorem find?_insert_self {folder : Folder} {path : Path}
    (hpath : folder.find? path ≠ some .directory) (entry : Entry) :
    (folder.insert path entry).find? path = some entry := by
  have hbelow : ¬ path.isPrefixOf folder.here = true := by
    intro habove
    exact hpath (if_pos habove)
  rw [find?, insert, if_neg hbelow]
  exact List.lookup_cons_self

theorem find?_insert_of_ne (folder : Folder) {path other : Path} (hne : other ≠ path)
    (entry : Entry) : (folder.insert path entry).find? other = folder.find? other := by
  have hlookup : (folder.insert path entry).entries.lookup other = folder.entries.lookup other := by
    rw [insert, List.lookup_cons, beq_eq_false_iff_ne.mpr hne]
    exact lookup_filter_of_ne hne folder.entries
  rw [find?, find?, hlookup]
  rfl

/-- A file can be put at the end of a way without blocking the way. -/
theorem follow_insert {folder : Folder} {path place : Path} {components : List String}
    (hfollow : folder.follow place components = .ok path)
    (hpath : folder.find? path ≠ some .directory) (entry : Entry) :
    (folder.insert path entry).follow place components = .ok path := by
  fun_induction folder.follow place components with
  | case1 place => exact hfollow
  | case2 place component rest hstay ih =>
      rw [follow, if_pos hstay]
      exact ih hfollow
  | case3 place rest hstay ih =>
      rw [follow, if_neg hstay, if_pos rfl]
      exact ih hfollow
  | case4 => contradiction
  | case5 place component hstay hup hlong =>
      rw [follow, if_neg hstay, if_neg hup, if_neg hlong, if_pos rfl]
      exact hfollow
  | case6 => contradiction
  | case7 => contradiction
  | case8 place component rest hstay hup hlong hlast hfind ih =>
      -- A directory stands on the way here, and none stands at the end of it.
      have hne : place ++ [component] ≠ path := by
        rintro rfl
        exact hpath hfind
      rw [follow, if_neg hstay, if_neg hup, if_neg hlong, if_neg hlast,
        find?_insert_of_ne folder hne, hfind]
      exact ih hfollow

/-- A name that leads to a path is short enough and can be followed. -/
theorem locate_eq_ok_iff {folder : Folder} {name : String} {path : Path} :
    folder.locate name = .ok path ↔
      '\x00' ∉ name.toList ∧ name.utf8ByteSize ≤ longestName ∧
        folder.follow (folder.start name) (components name) = .ok path := by
  simp only [locate, List.contains_iff_mem]
  split_ifs with hnull hlong
  · simp [hnull]
  · simp [Nat.not_le_of_lt hlong]
  · simp [hnull, Nat.le_of_not_lt hlong]

theorem locate_insert {folder : Folder} {name : String} {path : Path}
    (hlocate : folder.locate name = .ok path) (hpath : folder.find? path ≠ some .directory)
    (entry : Entry) : (folder.insert path entry).locate name = .ok path := by
  obtain ⟨hnull, hlong, hfollow⟩ := locate_eq_ok_iff.mp hlocate
  exact locate_eq_ok_iff.mpr ⟨hnull, hlong, follow_insert hfollow hpath entry⟩

/-- A text can be written to a name exactly if the name leads to a place without a directory. -/
theorem write_eq_ok_iff {folder after : Folder} {name text : String} :
    folder.write name text = .ok after ↔
      ∃ path, folder.locate name = .ok path ∧ folder.find? path ≠ some .directory ∧
        after = folder.insert path (.file text) := by
  rw [write, Failure.bind_eq_ok]
  refine exists_congr fun path => and_congr_right fun _ => ?_
  cases folder.find? path with
  | none => simp [eq_comm]
  | some entry =>
      cases entry with
      | directory => simp
      | file old => simp [eq_comm]

theorem exists_write_eq_ok {folder after : Folder} {name text : String}
    (hwrite : folder.write name text = .ok after) (other : String) :
    ∃ after, folder.write name other = .ok after := by
  obtain ⟨path, hlocate, hpath, -⟩ := write_eq_ok_iff.mp hwrite
  exact ⟨_, write_eq_ok_iff.mpr ⟨path, hlocate, hpath, rfl⟩⟩

/-- What was written is read back. -/
theorem read_of_write {folder after : Folder} {name text : String}
    (hwrite : folder.write name text = .ok after) : after.read name = .ok text := by
  obtain ⟨path, hlocate, hpath, rfl⟩ := write_eq_ok_iff.mp hwrite
  rw [read, locate_insert hlocate hpath, Failure.ok_bind, find?_insert_self hpath]

end Sequitur.Folder
