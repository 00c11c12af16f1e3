import Milp.Proofs.Captured
import Milp.Proofs.Files
import Milp.Proofs.Triple

/-! What an export leaves in the folder: the header of the model, and a file for each of its groups. -/
namespace Milp

variable {η κ β : Type} {A : Adapter Float η κ} {k : Kind}

namespace Kind

/-- What the entities of a kind are stored as. -/
abbrev Form : Kind → Type
  | .var => Stored.Variable Float
  | .constraint => Stored.Constraint Float
  | .constant => Stored.Constant Float

def store : (k : Kind) → k.Entity Float → k.Form
  | .var => Variable.store
  | .constraint => Constraint.store
  | .constant => Constant.store

/-- The form of the groups of a kind. -/
def format : (k : Kind) → Json.Codec (Stored.Group k.Form)
  | .var => Format.variableGroup
  | .constraint => Format.constraintGroup
  | .constant => Format.constantGroup

end Kind

namespace Model

def headerName (model : String) : String := model ++ ".json"

def groupName (k : Kind) (model group : String) : String := model ++ k.fileMark ++ group ++ ".json"

/-- The groups of a kind as they are stored. -/
def storedGroups (m : Model A) (k : Kind) : List (Stored.Group k.Form) := (m.registry k).stored k.store

/-- The file of a group. -/
def groupFile (m : Model A) (k : Kind) (g : Stored.Group k.Form) : String × String :=
  (groupName k m.identifier g.identifier, k.format.encodePretty g)

def groupFiles (m : Model A) (k : Kind) : List (String × String) := (m.storedGroups k).map (m.groupFile k)

/-- The files of a model, by name and text. -/
def files (m : Model A) : List (String × String) :=
  (headerName m.identifier, Format.header.encodePretty m.storeHeader) ::
    (m.groupFiles .constant ++ m.groupFiles .var ++ m.groupFiles .constraint)

/-- The names of the files of a model. -/
def fileNames (m : Model A) : List String := m.files.map Prod.fst

theorem files_ne_nil (m : Model A) : m.files ≠ [] := nofun

/-- Neither the model nor any of its groups is named by a path. -/
structure Slashless (m : Model A) : Prop where
  identifier : '/' ∉ m.identifier.toList
  groups : ∀ k, ∀ id ∈ m.groupIds k, '/' ∉ id.toList

instance (m : Model A) : Decidable m.Slashless :=
  decidable_of_iff ('/' ∉ m.identifier.toList ∧
    ∀ k ∈ [Kind.var, .constraint, .constant], ∀ id ∈ m.groupIds k, '/' ∉ id.toList)
    ⟨fun ⟨hid, hgroups⟩ => ⟨hid, fun k => hgroups k (by cases k <;> decide)⟩,
      fun h => ⟨h.identifier, fun k _ => h.groups k⟩⟩

variable {m : Model A}

theorem groupName_inj {k k' : Kind} {model group group' : String}
    (h : groupName k model group = groupName k' model group') : k = k' ∧ group = group' := by
  have hlist := congrArg String.toList h
  simp only [groupName, String.toList_append, List.append_assoc, List.append_cancel_left_eq] at hlist
  rw [← List.append_assoc, ← List.append_assoc, List.append_cancel_right_eq] at hlist
  cases k <;> cases k' <;> simp [Kind.fileMark] at hlist <;>
    exact ⟨rfl, String.toList_injective (by simpa using hlist)⟩

theorem headerName_ne_groupName (k : Kind) (model group : String) :
    headerName model ≠ groupName k model group := by
  intro h
  have hlength := congrArg (fun name => name.toList.length) h
  simp only [headerName, groupName, String.toList_append, List.length_append] at hlength
  cases k <;> simp [Kind.fileMark] at hlength <;> omega

theorem mem_groupFiles {f : String × String} (hf : f ∈ m.groupFiles k) :
    ∃ id ∈ m.groupIds k, f.1 = groupName k m.identifier id := by
  obtain ⟨g, hg, rfl⟩ := List.mem_map.mp hf
  obtain ⟨e, he, rfl⟩ := List.mem_map.mp hg
  exact ⟨e.1, List.mem_map_of_mem he, rfl⟩

theorem Slashless.plain (h : m.Slashless) : ∀ f ∈ m.files, FileTree.Plain f.1 := by
  have hgroup {k : Kind} {f : String × String} (hf : f ∈ m.groupFiles k) : FileTree.Plain f.1 := by
    obtain ⟨id, hid, hname⟩ := mem_groupFiles hf
    have hmark : '/' ∉ k.fileMark.toList := by cases k <;> decide
    rw [hname]
    refine FileTree.plain_of_extension ?_
    simp [String.toList_append, h.identifier, hmark, h.groups k id hid]
  intro f hf
  rcases List.mem_cons.mp hf with rfl | hf
  · exact FileTree.plain_of_extension h.identifier
  · rcases List.mem_append.mp hf with hf | hf
    · exact (List.mem_append.mp hf).elim hgroup hgroup
    · exact hgroup hf

theorem names_groupFiles (m : Model A) (k : Kind) :
    (m.groupFiles k).map Prod.fst = (m.groupIds k).map (groupName k m.identifier) := by
  simp only [groupFiles, storedGroups, Registry.stored, groupIds, Table.keys, List.map_map]
  rfl

/-- No two files of a model have one name, whatever its groups are called. -/
theorem nodup_fileNames (m : Model A) : m.fileNames.Nodup := by
  have hkind (k : Kind) : ((m.groupIds k).map (groupName k m.identifier)).Nodup :=
    (m.registry k).groups.nodup_keys.map fun _ _ h => (groupName_inj h).2
  have hapart {k k' : Kind} (hk : k ≠ k') : ∀ a ∈ (m.groupIds k).map (groupName k m.identifier),
      ∀ b ∈ (m.groupIds k').map (groupName k' m.identifier), a ≠ b := by
    rintro a ha b hb rfl
    obtain ⟨id, -, rfl⟩ := List.mem_map.mp ha
    obtain ⟨id', -, hname⟩ := List.mem_map.mp hb
    exact hk (groupName_inj hname).1.symm
  have hheader {k : Kind} : headerName m.identifier ∉ (m.groupIds k).map (groupName k m.identifier) := by
    intro hmem
    obtain ⟨id, -, hname⟩ := List.mem_map.mp hmem
    exact headerName_ne_groupName k m.identifier id hname.symm
  simp only [fileNames, files, List.map_cons, List.map_append, names_groupFiles]
  refine List.nodup_cons.mpr ⟨by simp only [List.mem_append, hheader, or_self, not_false_eq_true], ?_⟩
  refine List.nodup_append.mpr ⟨List.nodup_append.mpr ⟨hkind _, hkind _, hapart (by decide)⟩, hkind _, ?_⟩
  intro a ha
  exact (List.mem_append.mp ha).elim (hapart (by decide) a) (hapart (by decide) a)

end Model

namespace Store

variable {s : Store} {files : List (String × String)} {m : Model A}

theorem ofModel_bind {γ : Type} (b : β) (f : β → Export γ) : (ofModel (.ok b) >>= f) = f b := rfl

theorem exportGroup_eq (s : Store) {g : Group k} {x : Stored.Group k.Form}
    (h : m.storeGroup g k.store = .ok x) :
    s.exportGroup m k g = (do
      s.prepare
      put (join s.folder (Model.groupName k m.identifier g.identifier)) k.format x) := by
  have hgroup : s.exportGroup m k g = (do
      s.prepare
      put (join s.folder (Model.groupName k m.identifier g.identifier)) k.format
        (← ofModel (m.storeGroup g k.store))) := by cases k <;> rfl
  simp only [hgroup, h, ofModel_bind]

/-- The export has the files in the folder when it succeeds. -/
def Leaves (s : Store) (files : List (String × String)) (x : Export β) (files' : List (String × String)) : Prop :=
  Triple (fun w => s.Holds files w.1) x (fun _ w => s.Holds files' w.1) fun _ _ => True

theorem Leaves.ok {x : Export β} {files' : List (String × String)} {t t' : FileTree}
    {journal journal' : List (Event Float)} {b : β} (h : s.Leaves files x files') (hfiles : s.Holds files t)
    (hx : x (t, journal) = (.ok b, t', journal')) : s.Holds files' t' := by
  have hpost := h (t, journal) hfiles
  rwa [hx] at hpost

theorem exists_of_isSome {x : Export Unit} {w : FileTree × List (Event Float)}
    (h : (x w).1.toOption.isSome = true) : ∃ t journal, x w = (.ok (), t, journal) := by
  match hr : x w with
  | (.ok (), t, journal) => exact ⟨t, journal, rfl⟩
  | (.error e, _) =>
    rw [hr] at h
    cases h

theorem leaves_nil (x : Export β) : s.Leaves files x [] := by
  intro w _
  match x w with
  | (.ok _, _) => exact nofun
  | (.error _, _) => exact trivial

theorem leaves_forM {γ : Type} {l : List γ} {f : γ → Export Unit} (I : List γ → List (String × String))
    (h : ∀ done c rest, l = done ++ c :: rest → s.Leaves (I done) (f c) (I (done ++ [c]))) :
    s.Leaves (I []) (l.forM f) (I l) :=
  Triple.forM (fun done (w : FileTree × List (Event Float)) => s.Holds (I done) w.1) h

theorem Leaves.bind {x : Export β} {γ : Type} {f : β → Export γ} {files' files'' : List (String × String)}
    (h : s.Leaves files x files') (hf : ∀ b, s.Leaves files' (f b) files'') : s.Leaves files (x >>= f) files'' :=
  Triple.bind h hf

/-- The folder of files that are there is not made again. -/
theorem leaves_prepare (hf : s.folder ≠ "") (hn : ∀ f ∈ files, FileTree.Plain f.1) :
    s.Leaves files s.prepare files := by
  by_cases hne : files = []
  · subst hne
    exact leaves_nil _
  · refine Triple.get_bind fun w hw => ?_
    have hfolder := hw.isFolder hf hn hne
    have hpresent : w.1.isPresent s.folder = true := by
      unfold FileTree.isFolder at hfolder
      unfold FileTree.isPresent
      split at hfolder
      next h => rw [h]; rfl
      next => cases hfolder
    simp only [hpresent, hfolder, if_true]
    rintro _ rfl
    exact hw

theorem leaves_put {name : String} {c : Json.Codec β} {x : β} (hf : s.folder ≠ "")
    (hn : ∀ f ∈ files, FileTree.Plain f.1) (hname : FileTree.Plain name) (hnew : name ∉ files.map Prod.fst) :
    s.Leaves files (put (join s.folder name) c x) (files ++ [(name, c.encodePretty x)]) := by
  refine Triple.get_bind fun w hw => ?_
  cases h : w.1.write (join s.folder name) (c.encodePretty x).toUTF8 with
  | error e => exact fun _ _ => trivial
  | ok t =>
    rintro _ rfl
    exact hw.write hf hn hname hnew h

/-- Every group of a kind has its file. -/
theorem leaves_exportGroups (hf : s.folder ≠ "") (hm : (m.registry k).Named)
    (hn : ∀ f ∈ files ++ m.groupFiles k, FileTree.Plain f.1)
    (hnew : ((files ++ m.groupFiles k).map Prod.fst).Nodup) :
    s.Leaves files (s.exportGroups m k) (files ++ m.groupFiles k) := by
  let file (e : String × Group k) : String × String :=
    m.groupFile k ((m.registry k).storedGroup k.store e.1 e.2.description)
  have hfiles : m.groupFiles k = (m.registry k).groups.entries.map file := by
    simp only [Model.groupFiles, Model.storedGroups, Registry.stored, List.map_map]
    rfl
  rw [hfiles] at hn hnew ⊢
  have hloop : s.Leaves (files ++ List.map file []) ((m.registry k).groups.entries.forM fun e => do
      s.exportGroup m k (← ofModel (m.group k e.1))) (files ++ (m.registry k).groups.entries.map file) := by
    refine leaves_forM (fun done => files ++ done.map file) fun done e rest hl => ?_
    have hfind : (m.registry k).groups.find? e.1 = some e.2 := Table.find?_eq_some_iff.mpr (by simp [hl])
    have hid := hm e.1 e.2 hfind
    have hgroup : m.group k e.1 = .ok e.2 := Registry.group_eq_ok.mpr hfind
    have hstored := Model.storeGroup_eq (hid ▸ Table.contains_of_find? hfind) k.store
    rw [hid] at hstored
    have hsplit : files ++ (m.registry k).groups.entries.map file =
        files ++ done.map file ++ file e :: rest.map file := by simp [hl]
    rw [hsplit] at hn hnew
    have hplain : ∀ f ∈ files ++ done.map file, FileTree.Plain f.1 := fun f hmem =>
      hn f (List.mem_append_left _ hmem)
    have hfree : (file e).1 ∉ (files ++ done.map file).map Prod.fst := by
      rw [List.map_append] at hnew
      exact fun hmem => (List.nodup_append.mp hnew).2.2 _ hmem _ (by simp) rfl
    simp only [hgroup, ofModel_bind]
    rw [List.map_append, ← List.append_assoc, exportGroup_eq s hstored, hid]
    exact (leaves_prepare hf hplain).bind fun _ => leaves_put hf hplain (hn (file e) (by simp)) hfree
  rw [List.map_nil, List.append_nil] at hloop
  rw [exportGroups, Model.groupIds, Table.keys, List.forM_eq_forM, List.forM_map]
  exact hloop

/-- A model that was exported has all its files in the folder, beside those of other names that were there. -/
theorem leaves_exportModel (hf : s.folder ≠ "") (hm : ∀ k, (m.registry k).Named)
    (hn : ∀ f ∈ files ++ m.files, FileTree.Plain f.1) (hnew : ((files ++ m.files).map Prod.fst).Nodup) :
    s.Leaves files (s.exportModel m) (files ++ m.files) := by
  let header := (Model.headerName m.identifier, Format.header.encodePretty m.storeHeader)
  have hfiles : files ++ m.files =
      files ++ [header] ++ m.groupFiles .constant ++ m.groupFiles .var ++ m.groupFiles .constraint := by
    simp [Model.files, header]
  rw [hfiles] at hn hnew ⊢
  have hplain {fs gs : List (String × String)} (h : ∀ f ∈ fs ++ gs, FileTree.Plain f.1) :
      ∀ f ∈ fs, FileTree.Plain f.1 := fun f hmem => h f (List.mem_append_left _ hmem)
  have hnodup {fs gs : List (String × String)} (h : ((fs ++ gs).map Prod.fst).Nodup) :
      (fs.map Prod.fst).Nodup := (List.nodup_append.mp (List.map_append ▸ h)).1
  have hvars := hplain hn
  have hconstants := hplain hvars
  have hheader := hplain hconstants
  have hbefore := hplain hheader
  have hplainName : FileTree.Plain header.1 := hheader header (by simp)
  have hfree : header.1 ∉ files.map Prod.fst := by
    have hdistinct := hnodup (hnodup (hnodup hnew))
    rw [List.map_append] at hdistinct
    exact fun hmem => (List.nodup_append.mp hdistinct).2.2 _ hmem _ (by simp) rfl
  refine (leaves_prepare hf hbefore).bind fun _ => (leaves_put hf hbefore hplainName hfree).bind fun _ => ?_
  refine (leaves_exportGroups hf (hm .constant) hconstants (hnodup (hnodup hnew))).bind fun _ => ?_
  refine (leaves_exportGroups hf (hm .var) hvars (hnodup hnew)).bind fun _ => ?_
  refine (leaves_exportGroups hf (hm .constraint) hn hnew).bind fun _ => ?_
  exact Triple.modify fun _ h => h

end Store
end Milp
