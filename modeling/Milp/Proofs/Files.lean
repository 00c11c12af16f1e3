import Milp.Store
import Milp.Proofs.Declaration

/-! Files in one folder, by their names: what is written under a name is read under it, and the files of
other names are left as they are. -/
namespace Milp

theorem fromUTF8?_toUTF8 (s : String) : String.fromUTF8? s.toUTF8 = some s := by
  unfold String.fromUTF8?
  exact dif_pos s.isValidUTF8

namespace FileTree

variable {t t' : FileTree} {place here here' : List String} {path folder name : String}

/-- A name that is not a path of its own, and by which one gets on from a folder. -/
structure Plain (name : String) : Prop where
  slashless : '/' ∉ name.toList
  moves : name ≠ "" ∧ name ≠ "." ∧ name ≠ ".."

theorem Plain.not_startsWith (h : Plain name) : name.startsWith "/" = false := by
  rw [String.startsWith_string_eq_false_iff]
  exact fun hp => h.slashless (hp.subset (by simp))

theorem Plain.step_eq (h : Plain name) (here : List String) :
    step here name = if nameLimit < name.utf8ByteSize then .error .nameTooLong else .ok (here ++ [name]) := by
  obtain ⟨hempty, hdot, hdots⟩ := h.moves
  simp [step, hempty, hdot, hdots]

theorem step_eq_ok (h : Plain name) (hs : step here name = .ok place) : place = here ++ [name] := by
  rw [h.step_eq] at hs
  split at hs
  · cases hs
  · cases hs
    rfl

/-- A file name has an extension, so it is never empty and never made of dots alone. -/
theorem plain_of_extension {stem : String} (h : '/' ∉ stem.toList) : Plain (stem ++ ".json") where
  slashless := by simpa [String.toList_append] using h
  moves := by
    have hlast : (stem ++ ".json").toList.getLast? = some 'n' := by simp [String.toList_append]
    refine ⟨fun he => ?_, fun he => ?_, fun he => ?_⟩ <;> simp [he] at hlast

theorem names_eq_singleton (h : '/' ∉ name.toList) : names name = [name] := by
  simp [names, List.splitOn_eq_singleton h]

theorem names_empty : names "" = [""] := names_eq_singleton (by simp)

theorem names_append_slash (a b : String) : names (a ++ "/" ++ b) = names a ++ names b := by
  have hslash : (a ++ "/" ++ b).toList = a.toList ++ '/' :: b.toList := by simp [String.toList_append]
  rw [names, names, names, hslash, List.splitOn_append_cons_self, List.map_append]

theorem endsWith_slash : folder.endsWith "/" = true ↔ ∃ rest, folder = rest ++ "/" := by
  rw [String.endsWith_eq_endsWith_toSlice, String.Slice.endsWith_string_iff, String.copy_toSlice]
  constructor
  · rintro ⟨cs, hcs⟩
    refine ⟨String.ofList cs, String.toList_injective ?_⟩
    rw [String.toList_append, String.toList_ofList, hcs]
  · rintro ⟨rest, rfl⟩
    exact ⟨rest.toList, String.toList_append.symm⟩

/-- The names on the way into a folder, from which the name of a file goes on. -/
def way (folder : String) : List String :=
  if folder.endsWith "/" then (names folder).dropLast else names folder

theorem names_join (hf : folder ≠ "") (hn : Plain name) :
    names (Store.join folder name) = way folder ++ [name] := by
  have hname := names_eq_singleton hn.slashless
  rw [Store.join, if_neg (by simp [hn.not_startsWith]), way]
  by_cases hends : folder.endsWith "/" = true
  · obtain ⟨rest, rfl⟩ := endsWith_slash.mp hends
    have hlast : names (rest ++ "/") = names rest ++ [""] := by
      have hsplit := names_append_slash rest ""
      rwa [String.append_empty, names_empty] at hsplit
    simp only [hends, Bool.or_true, if_true]
    rw [names_append_slash, hlast, hname, List.dropLast_concat]
  · have hfolder : (folder.isEmpty || folder.endsWith "/") = false := by
      simp [hends, hf]
    rw [hfolder]
    simp only [Bool.false_eq_true, if_false, if_neg hends]
    rw [names_append_slash, hname]

theorem exists_join (folder : String) (hn : Plain name) : ∃ rest, Store.join folder name = folder ++ rest := by
  rw [Store.join, if_neg (by simp [hn.not_startsWith])]
  split
  · exact ⟨name, rfl⟩
  · exact ⟨"/" ++ name, String.append_assoc⟩

theorem start_join (t : FileTree) (hf : folder ≠ "") (hn : Plain name) :
    t.start (Store.join folder name) = t.start folder := by
  obtain ⟨rest, hrest⟩ := exists_join folder hn
  have hstart : (folder ++ rest).startsWith "/" = folder.startsWith "/" := by
    rw [Bool.eq_iff_iff, String.startsWith_string_iff, String.startsWith_string_iff, String.toList_append]
    cases hcs : folder.toList with
    | nil => exact absurd (String.toList_eq_nil_iff.mp hcs) hf
    | cons c cs => simp
  rw [start, start, hrest, hstart]

theorem follow_cons (t : FileTree) (here : List String) (name : String) (rest : List String) :
    t.follow here (name :: rest) = (do
      t.requireFolder here
      t.follow (← step here name) rest) := rfl

theorem follow_append (t : FileTree) (here : List String) (a b : List String) :
    t.follow here (a ++ b) = t.follow here a >>= fun next => t.follow next b := by
  induction a generalizing here with
  | nil => rfl
  | cons name rest ih =>
    simp only [List.cons_append, follow_cons, bind_assoc]
    congr 1
    funext _
    congr 1
    funext next
    exact ih next

/-- Where the files of a folder are. -/
def base (t : FileTree) (folder : String) : Except FileError (List String) := do
  let here ← t.follow (t.start folder) (way folder)
  t.requireFolder here
  return here

theorem place_join (t : FileTree) (hf : folder ≠ "") (hn : Plain name) :
    t.place (Store.join folder name) = (do
      requireShort (Store.join folder name)
      step (← t.base folder) name) := by
  obtain ⟨rest, hrest⟩ := exists_join folder hn
  have hempty : (Store.join folder name).isEmpty = false := by
    rw [Bool.eq_false_iff]
    intro h
    rw [String.isEmpty_iff, hrest] at h
    exact hf (String.append_eq_empty_iff.mp h).1
  have hlast (here : List String) : (step here name >>= fun next => t.follow next []) = step here name :=
    bind_pure _
  rw [place, hempty, start_join t hf hn, names_join hf hn, follow_append]
  simp only [base, follow_cons, bind_assoc, pure_bind, hlast]
  rfl

/-- A way that could be gone in one tree can be gone in the other. -/
structure Extends (t t' : FileTree) : Prop where
  home : t'.home = t.home
  folders : ∀ place, t.node? place = some .folder → t'.node? place = some .folder

theorem requireFolder_eq_ok {u : Unit} : t.requireFolder place = .ok u ↔ t.node? place = some .folder := by
  unfold requireFolder
  split <;> simp_all

theorem Extends.follow (h : t.Extends t') {ns : List String} (hf : t.follow here ns = .ok here') :
    t'.follow here ns = .ok here' := by
  induction ns generalizing here with
  | nil => exact hf
  | cons name rest ih =>
    simp only [FileTree.follow, bind_eq_ok, requireFolder_eq_ok] at hf ⊢
    obtain ⟨_, hfolder, next, hstep, hrest⟩ := hf
    exact ⟨(), h.folders _ hfolder, next, hstep, ih hrest⟩

theorem base_eq_ok : t.base folder = .ok here ↔
    t.follow (t.start folder) (way folder) = .ok here ∧ t.node? here = some .folder := by
  simp only [base, bind_eq_ok, requireFolder_eq_ok]
  constructor
  · rintro ⟨_, hfollow, _, hfolder, ⟨⟩⟩
    exact ⟨hfollow, hfolder⟩
  · rintro ⟨hfollow, hfolder⟩
    exact ⟨here, hfollow, (), hfolder, rfl⟩

theorem Extends.base (h : t.Extends t') (hb : t.base folder = .ok here) : t'.base folder = .ok here := by
  obtain ⟨hfollow, hfolder⟩ := base_eq_ok.mp hb
  have hstart : t'.start folder = t.start folder := by rw [start, start, h.home]
  exact base_eq_ok.mpr ⟨hstart ▸ h.follow hfollow, h.folders _ hfolder⟩

theorem place_join_eq_ok (hf : folder ≠ "") (hn : Plain name) (h : t.place (Store.join folder name) = .ok place) :
    ∃ here, requireShort (Store.join folder name) = .ok () ∧ t.base folder = .ok here ∧
      step here name = .ok place := by
  rw [place_join t hf hn] at h
  obtain ⟨_, hshort, h⟩ := bind_eq_ok.mp h
  obtain ⟨here, hbase, hstep⟩ := bind_eq_ok.mp h
  exact ⟨here, hshort, hbase, hstep⟩

theorem Extends.place_join (h : t.Extends t') (hf : folder ≠ "") (hn : Plain name)
    (hp : t.place (Store.join folder name) = .ok place) : t'.place (Store.join folder name) = .ok place := by
  obtain ⟨here, hshort, hbase, hstep⟩ := place_join_eq_ok hf hn hp
  rw [FileTree.place_join t' hf hn]
  exact bind_eq_ok.mpr ⟨(), hshort, bind_eq_ok.mpr ⟨here, h.base hbase, hstep⟩⟩

/-- A folder that has files is there. -/
theorem isFolder_of_place (hf : folder ≠ "") (hn : Plain name)
    (h : t.place (Store.join folder name) = .ok place) : t.isFolder folder = true := by
  obtain ⟨here, hshort, hbase, -⟩ := place_join_eq_ok hf hn h
  obtain ⟨hfollow, hfolder⟩ := base_eq_ok.mp hbase
  have hends : t.follow (t.start folder) (names folder) = .ok here := by
    by_cases hslash : folder.endsWith "/" = true
    · obtain ⟨rest, hrest⟩ := endsWith_slash.mp hslash
      have hnames : names folder = way folder ++ [""] := by
        have hsplit := names_append_slash rest ""
        rw [String.append_empty, ← hrest, names_empty] at hsplit
        rw [way, if_pos hslash, hsplit, List.dropLast_concat]
      rw [hnames, follow_append]
      exact bind_eq_ok.mpr ⟨here, hfollow, bind_eq_ok.mpr ⟨(), requireFolder_eq_ok.mpr hfolder, rfl⟩⟩
    · rwa [way, if_neg hslash] at hfollow
  have hsize : requireShort folder = .ok () := by
    obtain ⟨rest, hrest⟩ := exists_join folder hn
    have hlength := String.utf8ByteSize_append (s := folder) (t := rest)
    rw [← hrest] at hlength
    unfold requireShort at hshort ⊢
    split at hshort
    · cases hshort
    · rw [if_neg (by omega)]
  have hempty : folder.isEmpty = false := by simp [Bool.eq_false_iff, String.isEmpty_iff, hf]
  have hplace : t.place folder = .ok here := by
    rw [FileTree.place, hempty, hsize]
    exact hends
  rw [isFolder, find?, hplace]
  simp [Except.toOption, hfolder]

theorem write_eq_ok {content : ByteArray} (h : t.write path content = .ok t') :
    ∃ place, t.place path = .ok place ∧ t.node? place ≠ some .folder ∧ t' = t.put place (.file content) := by
  unfold write at h
  obtain ⟨place, hplace, h⟩ := bind_eq_ok.mp h
  refine ⟨place, hplace, ?_⟩
  split at h
  · cases h
  · next hn =>
    cases h
    exact ⟨hn, rfl⟩

theorem ne_nil_of_not_folder (h : t.node? place ≠ some .folder) : place ≠ [] := by
  rintro rfl
  exact h rfl

theorem extends_put (n : FileNode) (h : t.node? place ≠ some .folder) : t.Extends (t.put place n) where
  home := rfl
  folders place' hp := by
    rw [node?_put t place' n (ne_nil_of_not_folder h), if_neg]
    · exact hp
    · rintro rfl
      exact h hp

theorem read_eq_ok {text : String} : t.read path = .ok text ↔
    ∃ place, t.place path = .ok place ∧ t.node? place = some (.file text.toUTF8) := by
  unfold read
  constructor
  · intro h
    obtain ⟨place, hplace, h⟩ := bind_eq_ok.mp h
    refine ⟨place, hplace, ?_⟩
    split at h
    · cases h
    · cases h
    · next content hn =>
      split at h
      · next s hs =>
        cases h
        rw [hn]
        unfold String.fromUTF8? at hs
        split at hs
        · cases hs
          rfl
        · cases hs
      · cases h
  · rintro ⟨place, hplace, hn⟩
    refine bind_eq_ok.mpr ⟨place, hplace, ?_⟩
    simp only [hn, fromUTF8?_toUTF8]
    rfl

/-- What was written under a name is read under it, -/
theorem read_write {text : String} (hf : folder ≠ "") (hn : Plain name)
    (h : t.write (Store.join folder name) text.toUTF8 = .ok t') :
    t'.read (Store.join folder name) = .ok text := by
  obtain ⟨place, hplace, hfree, rfl⟩ := write_eq_ok h
  refine read_eq_ok.mpr ⟨place, (extends_put _ hfree).place_join hf hn hplace, ?_⟩
  rw [node?_put _ _ _ (ne_nil_of_not_folder hfree), if_pos rfl]

/-- and the file of another name stays as it was. -/
theorem read_write_of_ne {name' text : String} {content : ByteArray} (hf : folder ≠ "") (hn : Plain name)
    (hn' : Plain name') (hne : name' ≠ name) (h : t.write (Store.join folder name) content = .ok t')
    (hr : t.read (Store.join folder name') = .ok text) : t'.read (Store.join folder name') = .ok text := by
  obtain ⟨place, hplace, hfree, rfl⟩ := write_eq_ok h
  obtain ⟨place', hplace', hnode⟩ := read_eq_ok.mp hr
  refine read_eq_ok.mpr ⟨place', (extends_put _ hfree).place_join hf hn' hplace', ?_⟩
  obtain ⟨here, -, hbase, hstep⟩ := place_join_eq_ok hf hn hplace
  obtain ⟨here', -, hbase', hstep'⟩ := place_join_eq_ok hf hn' hplace'
  cases hbase.symm.trans hbase'
  rw [node?_put _ _ _ (ne_nil_of_not_folder hfree), if_neg]
  · exact hnode
  · rw [step_eq_ok hn hstep, step_eq_ok hn' hstep']
    simp [hne]

end FileTree

namespace Store

variable {s : Store} {t t' : FileTree} {files : List (String × String)}

/-- The folder of the store has these files, given by name and text. -/
def Holds (s : Store) (files : List (String × String)) (t : FileTree) : Prop :=
  ∀ f ∈ files, t.read (join s.folder f.1) = .ok f.2

theorem Holds.isFolder (h : s.Holds files t) (hf : s.folder ≠ "") (hn : ∀ f ∈ files, FileTree.Plain f.1)
    (hne : files ≠ []) : t.isFolder s.folder = true := by
  obtain ⟨f, hmem⟩ := List.exists_mem_of_ne_nil files hne
  obtain ⟨place, hplace, -⟩ := FileTree.read_eq_ok.mp (h f hmem)
  exact FileTree.isFolder_of_place hf (hn f hmem) hplace

/-- A file of a new name comes to those that are there. -/
theorem Holds.write {name text : String} (h : s.Holds files t) (hf : s.folder ≠ "")
    (hn : ∀ f ∈ files, FileTree.Plain f.1) (hname : FileTree.Plain name) (hnew : name ∉ files.map Prod.fst)
    (hw : t.write (join s.folder name) text.toUTF8 = .ok t') : s.Holds (files ++ [(name, text)]) t' := by
  intro f hmem
  rcases List.mem_append.mp hmem with hold | hlast
  · have hne : f.1 ≠ name := fun he => hnew (he ▸ List.mem_map_of_mem hold)
    exact FileTree.read_write_of_ne hf hname (hn f hold) hne hw (h f hold)
  · rw [List.mem_singleton.mp hlast]
    exact FileTree.read_write hf hname hw

end Store
end Milp
