import Milp.Proofs.Reimported

/-! Several models in one folder: each is imported as if it were alone there, as long as no file of one goes
by the name of a file of another. -/
namespace Milp

variable {η κ η₁ κ₁ η₂ κ₂ : Type} {A : Adapter Float η κ} {A₁ : Adapter Float η₁ κ₁} {A₂ : Adapter Float η₂ κ₂}

namespace Model

variable {m : Model A} {m₁ : Model A₁} {m₂ : Model A₂}

/-- The name of every file starts with the name of the model. -/
theorem prefix_of_mem_fileNames {name : String} (h : name ∈ m.fileNames) :
    m.identifier.toList <+: name.toList := by
  obtain ⟨f, hf, rfl⟩ := List.mem_map.mp h
  have hgroup {k : Kind} (hf : f ∈ m.groupFiles k) : m.identifier.toList <+: f.1.toList := by
    obtain ⟨id, -, hname⟩ := mem_groupFiles hf
    simp only [hname, groupName, String.toList_append, List.append_assoc]
    exact List.prefix_append ..
  simp only [files, List.mem_cons, List.mem_append] at hf
  rcases hf with rfl | (hf | hf) | hf
  · simp only [headerName, String.toList_append]
    exact List.prefix_append ..
  · exact hgroup hf
  · exact hgroup hf
  · exact hgroup hf

/-- Two models have no file name in common if neither is called by what the name of the other starts with. -/
theorem disjoint_fileNames (h : ¬ m₁.identifier.toList <+: m₂.identifier.toList)
    (h' : ¬ m₂.identifier.toList <+: m₁.identifier.toList) : m₁.fileNames.Disjoint m₂.fileNames := by
  intro name h₁ h₂
  rcases List.prefix_or_prefix_of_prefix (prefix_of_mem_fileNames h₁) (prefix_of_mem_fileNames h₂) with hp | hp
  · exact h hp
  · exact h' hp

variable {s : Store} {t t' : FileTree} {journal journal' : List (Event Float)}

/-- All files of two models are in the folder once both were exported, if their names differ. -/
theorem Kept.holds_both (h₁ : m₁.Kept) (h₂ : m₂.Kept) (hs₁ : m₁.Slashless) (hs₂ : m₂.Slashless)
    (hfolder : s.folder ≠ "") (hnames : m₁.fileNames.Disjoint m₂.fileNames) {u : FileTree}
    {events events' : List (Event Float)} (hfirst : s.exportModel m₁ (t, journal) = (.ok (), t', journal'))
    (hsecond : s.exportModel m₂ (t', events) = (.ok (), u, events')) :
    s.Holds m₁.files u ∧ s.Holds m₂.files u := by
  have hplain : ∀ f ∈ m₁.files ++ m₂.files, FileTree.Plain f.1 :=
    List.forall_mem_append.mpr ⟨hs₁.plain, hs₂.plain⟩
  have hnodup : ((m₁.files ++ m₂.files).map Prod.fst).Nodup := by
    rw [List.map_append]
    exact m₁.nodup_fileNames.append m₂.nodup_fileNames hnames
  have hleaves : s.Leaves m₁.files (s.exportModel m₂) (m₁.files ++ m₂.files) :=
    Store.leaves_exportModel hfolder (fun k => (h₂ k).coherent.named) hplain hnodup
  have hholds : s.Holds (m₁.files ++ m₂.files) u := hleaves.ok (h₁.holds_files hs₁ hfolder hfirst) hsecond
  exact List.forall_mem_append.mp hholds

/-- A model is imported as if it alone had been exported, whichever of two was exported first, if no file of
one goes by the name of a file of the other. -/
theorem Reached.import_shared (h₁ : m₁.Reached) (h₂ : m₂.Reached) (hs₁ : m₁.Slashless) (hs₂ : m₂.Slashless)
    (hfolder : s.folder ≠ "") (hnames : m₁.fileNames.Disjoint m₂.fileNames) {t t₁ t₂ u : FileTree}
    {journal journal₁ journal₂ events events' : List (Event Float)}
    (hfirst : s.exportModel m₁ (t, journal) = (.ok (), t₁, journal₁))
    (hsecond : s.exportModel m₂ (t₁, events) = (.ok (), u, events'))
    (halone : s.exportModel m₂ (t, journal) = (.ok (), t₂, journal₂)) (n : Model A) (ns : List (Event Float)) :
    (n.identifier = m₁.identifier → s.importModel u (n, ns) = s.importModel t₁ (n, ns)) ∧
      (n.identifier = m₂.identifier → s.importModel u (n, ns) = s.importModel t₂ (n, ns)) := by
  obtain ⟨hfiles₁, hfiles₂⟩ := h₁.kept.holds_both h₂.kept hs₁ hs₂ hfolder hnames hfirst hsecond
  have halone₁ := h₁.kept.holds_files hs₁ hfolder hfirst
  have halone₂ := h₂.kept.holds_files hs₂ hfolder halone
  constructor
  · intro hn
    rw [hs₁.importModel_eq hfolder hfiles₁ hn, hs₁.importModel_eq hfolder halone₁ hn]
  · intro hn
    rw [hs₂.importModel_eq hfolder hfiles₂ hn, hs₂.importModel_eq hfolder halone₂ hn]

/-- Nothing is imported where something else than the header of the model stands in its file. -/
theorem importModel_of_no_header (hisFolder : t.isFolder s.folder = true) {id text : String}
    (hread : t.read (Store.join s.folder (headerName id)) = .ok text)
    (htext : ∀ h, Format.header.decodeBy s.reader text ≠ .ok h) {n : Model A} (hn : n.identifier = id)
    (events : List (Event Float)) (w : Model A × List (Event Float)) :
    s.importModel t (n, events) ≠ (.ok (), w) := by
  have hfetch : ∃ e, s.fetch t (Store.join s.folder (headerName id)) Format.header = .error e := by
    rw [Store.fetch, hread]
    change ∃ e, (Format.header.decodeBy s.reader text).mapError _ = .error e
    cases hd : Format.header.decodeBy s.reader text with
    | ok h => exact absurd hd (htext h)
    | error e => exact ⟨_, rfl⟩
  obtain ⟨e, he⟩ := hfetch
  rw [Store.importModel_eq hisFolder, bind_apply]
  change (liftExcept (s.fetch t (Store.join s.folder (headerName n.identifier)) Format.header) >>=
    _ : Store.Import A Unit) (n, events) ≠ _
  rw [hn, he]
  intro h
  cases h

end Model

/-- A first and a second model of these names. -/
def Workspace.pair (first second : String) : Workspace (recorder Float) Unit :=
  (fresh () {}).afterAll [.create "first" first {}, .create "second" second {}]

/-- Whether both are there, the second can be exported as well after the first as alone, and they have a
property besides. -/
def Workspace.exportsBoth (w : Workspace (recorder Float) Unit)
    (p : Model (recorder Float) → Model (recorder Float) → Bool) : Bool :=
  (w.benches.find? "first").any fun b => (w.benches.find? "second").any fun c =>
    decide b.model.Slashless && decide c.model.Slashless && p b.model c.model &&
      match Store.exportModel {} b.model ({}, []) with
      | (.ok (), t, _) => (Store.exportModel {} c.model (t, [])).1.toOption.isSome &&
        (Store.exportModel {} c.model ({}, [])).1.toOption.isSome
      | (.error _, _) => false

theorem Workspace.exists_both {w : Workspace (recorder Float) Unit}
    {p : Model (recorder Float) → Model (recorder Float) → Bool} (h : w.exportsBoth p = true) :
    ∃ b c, w.benches.find? "first" = some b ∧ w.benches.find? "second" = some c ∧ b.model.Slashless ∧
      c.model.Slashless ∧ p b.model c.model = true ∧
      ∃ t₁ journal₁, Store.exportModel {} b.model ({}, []) = (.ok (), t₁, journal₁) ∧
        (∃ u journal, Store.exportModel {} c.model (t₁, []) = (.ok (), u, journal)) ∧
        ∃ t₂ journal₂, Store.exportModel {} c.model ({}, []) = (.ok (), t₂, journal₂) := by
  obtain ⟨b, hb, h⟩ := (Option.any_eq_true ..).mp h
  obtain ⟨c, hc, h⟩ := (Option.any_eq_true ..).mp h
  simp only [Bool.and_eq_true, decide_eq_true_eq] at h
  obtain ⟨⟨⟨hs₁, hs₂⟩, hp⟩, hexport⟩ := h
  refine ⟨b, c, hb, hc, hs₁, hs₂, hp, ?_⟩
  split at hexport
  next t₁ journal₁ ht =>
    obtain ⟨hboth, halone⟩ := Bool.and_eq_true_iff.mp hexport
    exact ⟨t₁, journal₁, ht, Store.exists_of_isSome hboth, Store.exists_of_isSome halone⟩
  next => cases hexport

namespace Model

/-- The names of the two depots do not start with one another. -/
theorem import_shared_depots :
    ∃ b c, (Workspace.pair "north" "south").benches.find? "first" = some b ∧
      (Workspace.pair "north" "south").benches.find? "second" = some c ∧ b.model.Reached ∧ c.model.Reached ∧
      b.model.Slashless ∧ c.model.Slashless ∧ b.model.fileNames.Disjoint c.model.fileNames ∧
      ∃ t₁ journal₁ u journal t₂ journal₂, Store.exportModel {} b.model ({}, []) = (.ok (), t₁, journal₁) ∧
        Store.exportModel {} c.model (t₁, []) = (.ok (), u, journal) ∧
        Store.exportModel {} c.model ({}, []) = (.ok (), t₂, journal₂) ∧
        let north : Model (recorder Float) := .new ⟨2⟩ "north" {}
        let south : Model (recorder Float) := .new ⟨2⟩ "south" {}
        Store.importModel {} u (north, []) = Store.importModel {} t₁ (north, []) ∧
          Store.importModel {} u (south, []) = Store.importModel {} t₂ (south, []) := by
  have hpair : (Workspace.pair "north" "south").exportsBoth fun m₁ m₂ =>
      decide (m₁.identifier = "north" ∧ m₂.identifier = "south") := by decide +kernel
  obtain ⟨b, c, hb, hc, hs₁, hs₂, hid, t₁, journal₁, hfirst, ⟨u, journal, hsecond⟩, t₂, journal₂, halone⟩ :=
    Workspace.exists_both hpair
  obtain ⟨hid₁, hid₂⟩ := of_decide_eq_true hid
  have h₁ : b.model.Reached := Workspace.reached hb
  have h₂ : c.model.Reached := Workspace.reached hc
  have hnames : b.model.fileNames.Disjoint c.model.fileNames :=
    disjoint_fileNames (by rw [hid₁, hid₂]; decide) (by rw [hid₁, hid₂]; decide)
  have hshared (n : Model (recorder Float)) :=
    h₁.import_shared h₂ hs₁ hs₂ (by decide) hnames hfirst hsecond halone n []
  exact ⟨b, c, hb, hc, h₁, h₂, hs₁, hs₂, hnames, t₁, journal₁, u, journal, t₂, journal₂, hfirst, hsecond, halone,
    (hshared _).1 hid₁.symm, (hshared _).2 hid₂.symm⟩

/-- A model can be called what the file of a group of another is called, and is then lost when the other is
exported to the same folder. -/
theorem header_overwritten :
    ∃ b c, (Workspace.pair "depot-VARG-Default" "depot").benches.find? "first" = some b ∧
      (Workspace.pair "depot-VARG-Default" "depot").benches.find? "second" = some c ∧
      b.model.Reached ∧ c.model.Reached ∧ b.model.Slashless ∧ c.model.Slashless ∧
      b.model.identifier ≠ c.model.identifier ∧
      ∃ t₁ journal₁ u journal, Store.exportModel {} b.model ({}, []) = (.ok (), t₁, journal₁) ∧
        Store.exportModel {} c.model (t₁, []) = (.ok (), u, journal) ∧
        let n : Model (recorder Float) := .new ⟨2⟩ b.model.identifier {}
        (∃ w, Store.importModel {} t₁ (n, []) = (.ok (), w)) ∧ ∀ w, Store.importModel {} u (n, []) ≠ (.ok (), w) := by
  have hpair : (Workspace.pair "depot-VARG-Default" "depot").exportsBoth fun m₁ m₂ =>
      decide (m₁.document.Each Json.NumberReader.scaling.GivesBack) && decide (m₁.identifier ≠ m₂.identifier) &&
        (m₂.storedGroups .var).any fun g => groupName .var m₂.identifier g.identifier == headerName m₁.identifier &&
          (Format.header.decode (Format.variableGroup.encodePretty g)).toOption.isNone := by decide +kernel
  obtain ⟨b, c, hb, hc, hs₁, hs₂, hpair, t₁, journal₁, hfirst, ⟨u, journal, hsecond⟩, -⟩ :=
    Workspace.exists_both hpair
  simp only [Bool.and_eq_true, decide_eq_true_eq, List.any_eq_true, beq_iff_eq] at hpair
  obtain ⟨⟨heach, hid⟩, g, hg, hname, hdecode⟩ := hpair
  have h₁ : b.model.Reached := Workspace.reached hb
  have h₂ : c.model.Reached := Workspace.reached hc
  have hA : (recorder Float).Usual := usual_recorder
  refine ⟨b, c, hb, hc, h₁, h₂, hs₁, hs₂, hid, t₁, journal₁, u, journal, hfirst, hsecond, ?_⟩
  intro n
  constructor
  · obtain ⟨events, hr⟩ := (h₁.regular hA).restores hA ⟨2⟩ b.model.identifier {} []
    have hfiles := h₁.kept.holds_files hs₁ (by decide) hfirst
    have heq := hs₁.importModel_eq (by decide) hfiles (n := n) rfl []
    exact ⟨_, heq.trans (readModel_of_each (s := {}) heach hr)⟩
  · have hfiles := h₂.kept.holds_files hs₂ (by decide) hsecond
    have hread := hfiles (c.model.groupFile .var g) (Store.mem_files hg)
    rw [groupFile, hname] at hread
    have hfolder : u.isFolder ({} : Store).folder = true :=
      hfiles.isFolder (by decide) hs₂.plain c.model.files_ne_nil
    refine importModel_of_no_header hfolder hread (fun h hok => ?_) (n := n) rfl []
    change Format.header.decode (Format.variableGroup.encodePretty g) = .ok h at hok
    rw [hok] at hdecode
    cases hdecode

end Model
end Milp
