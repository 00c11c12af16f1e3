import Milp.Proofs.Exported
import Milp.Proofs.Documents
import Milp.Proofs.Workspaces

/-! What an import makes of the files of a model: it depends on nothing else in the folder, and it restores the
document of the model, with its numbers as they are read, or fails where one of them is not. -/
namespace Milp

variable {η κ η' κ' β γ : Type} {A : Adapter Float η κ} {A' : Adapter Float η' κ'} {k : Kind}

/-- Declares what is stored of a group. -/
def Kind.restore : (k : Kind) → Stored.Group k.Form → Edit A Unit
  | .var => Edit.restoreVariables
  | .constraint => Edit.restoreConstraints
  | .constant => Edit.restoreConstants

/-- What is left of a group whose numbers were written and read. -/
def Kind.reread (r : Json.NumberReader) : (k : Kind) → Stored.Group k.Form → Option (Stored.Group k.Form)
  | .var => Stored.Group.reread (Stored.Variable.reread r)
  | .constraint => Stored.Group.reread (Stored.Constraint.reread r)
  | .constant => Stored.Group.reread (Stored.Constant.reread r)

theorem Kind.format_rereads (r : Json.NumberReader) (k : Kind) : k.format.Rereads r (k.reread r) := by
  cases k with
  | var => exact Format.variableGroup_rereads
  | constraint => exact Format.constraintGroup_rereads
  | constant => exact Format.constantGroup_rereads

namespace Store

variable {s : Store} {t : FileTree} {model : String}

/-- On a model of this name the two do the same, and leave it its name. -/
structure SameOn (model : String) (x y : Import A β) : Prop where
  same : ∀ w, w.1.identifier = model → x w = y w
  keeps : Keeps (fun m => m.identifier = model) x

theorem SameOn.bind {x y : Import A β} {f g : β → Import A γ} (h : SameOn model x y)
    (hf : ∀ b, SameOn model (f b) (g b)) : SameOn model (x >>= f) (y >>= g) where
  same w hw := by
    have hkept := h.keeps w hw
    rw [bind_apply, bind_apply, ← h.same w hw]
    revert hkept
    match x w with
    | (.ok b, w') => exact (hf b).same w'
    | (.error e, w') => exact fun _ => rfl
  keeps := Triple.bind h.keeps fun b => (hf b).keeps

/-- After a check they need to do the same only with what it lets through. -/
theorem sameOn_lift {r : Except StoreError β} {f g : β → Import A γ}
    (h : ∀ b, r = .ok b → SameOn model (f b) (g b)) : SameOn model (liftExcept r >>= f) (liftExcept r >>= g) := by
  cases r with
  | ok b => exact ⟨(h b rfl).same, (h b rfl).keeps⟩
  | error e => exact ⟨fun _ _ => rfl, fun _ hw => hw⟩

/-- What comes after a check starts where the check did. -/
theorem apply_lift_bind_eq_ok {r : Except StoreError β} {f : β → Import A γ} {w w' : Model A × List (Event Float)}
    {c : γ} (h : (liftExcept r >>= f) w = (.ok c, w')) : ∃ b, r = .ok b ∧ f b w = (.ok c, w') := by
  cases r with
  | ok b => exact ⟨b, rfl, h⟩
  | error e => cases h

/-- Where the name of the model is asked for, it is known. -/
theorem sameOn_get {f : Model A × List (Event Float) → Import A β} {y : Import A β}
    (h : ∀ w, w.1.identifier = model → SameOn model (f w) y) : SameOn model (get >>= f) y where
  same w hw := (h w hw).same w hw
  keeps w hw := (h w hw).keeps w hw

theorem SameOn.of_keeps {x : Import A β} (h : Keeps (fun m => m.identifier = model) x) : SameOn model x x :=
  ⟨fun _ _ => rfl, h⟩

theorem sameOn_forM {l : List γ} {f g : γ → Import A Unit} (h : ∀ c ∈ l, SameOn model (f c) (g c)) :
    SameOn model (l.forM f) (l.forM g) := by
  induction l with
  | nil => exact .of_keeps (Triple.pure fun _ hw => hw)
  | cons c rest ih => exact (h c (by simp)).bind fun _ => ih fun d hd => h d (by simp [hd])

theorem edit_eq_ok {e : Edit A β} {w w' : Model A × List (Event Float)} {b : β} (h : edit e w = (.ok b, w')) :
    e w = (.ok b, w') := by
  rw [edit_apply] at h
  match he : e w with
  | (.ok _, _) =>
    rw [he] at h
    cases h
    rfl
  | (.error _, _) =>
    rw [he] at h
    cases h

theorem edit_bind (e : Edit A β) (f : β → Edit A γ) : edit (e >>= f) = edit e >>= fun b => edit (f b) := by
  funext w
  rw [edit_apply, bind_apply, bind_apply, edit_apply]
  match e w with
  | (.ok b, w') => rfl
  | (.error x, w') => rfl

theorem restoring_identifier (model : String) : Restoring (A := A) fun m => m.identifier = model :=
  restoring_of_changes fun _ _ hc hm => hc.grows.identifier.trans hm

theorem keeps_restore {J : Model A → Prop} (hJ : Restoring J) (k : Kind) (g : Stored.Group k.Form) :
    Edit.Keeps J (k.restore g) := by
  cases k with
  | var => exact hJ.vars g
  | constraint => exact hJ.constraints g
  | constant => exact hJ.constants g

/-- What the text of a value is read as. Unification is not to compute it. -/
@[irreducible] def reread (s : Store) (name : String) (c : Json.Codec β) (x : β) : Except StoreError β :=
  (c.decodeBy s.reader (c.encodePretty x)).mapError (StoreError.decode (join s.folder name))

theorem reread_eq_ok {s : Store} {name : String} {c : Json.Codec β} {f : β → Option β}
    (hc : c.Rereads s.reader f) {x y : β} : s.reread name c x = .ok y ↔ f x = some y := by
  rw [reread, ← hc.decode_encodePretty (x := x)]
  cases c.decodeBy s.reader (c.encodePretty x) with
  | ok z => exact ⟨fun h => congrArg _ (Except.ok.inj h), fun h => congrArg _ (Except.ok.inj h)⟩
  | error e => exact ⟨nofun, nofun⟩

/-- Declares a group as its text is read. -/
def readGroup (s : Store) (model : String) (k : Kind) (g : Stored.Group k.Form) : Import A Unit := do
  edit (k.restore (← liftExcept (s.reread (Model.groupName k model g.identifier) k.format g)))

/-- What an import comes to that finds the files of a model, whatever else is in the folder. -/
def readModel (s : Store) (m : Model A) : Import A' Unit := do
  let header ← liftExcept (s.reread (Model.headerName m.identifier) Format.header m.storeHeader)
  (m.storedGroups .constant).forM (s.readGroup m.identifier .constant)
  (m.storedGroups .var).forM (s.readGroup m.identifier .var)
  (m.storedGroups .constraint).forM (s.readGroup m.identifier .constraint)
  edit (Edit.restoreHeader header)
  modify fun w => (w.1, w.2 ++ [.modelImported m.identifier s.folder])

variable {m : Model A}

theorem fetch_of_read {name : String} {c : Json.Codec β} {x : β}
    (h : t.read (join s.folder name) = .ok (c.encodePretty x)) :
    s.fetch t (join s.folder name) c = s.reread name c x := by
  rw [fetch, h, reread]
  rfl

theorem mem_files {g : Stored.Group k.Form} (hg : g ∈ m.storedGroups k) : m.groupFile k g ∈ m.files := by
  have hfile : m.groupFile k g ∈ m.groupFiles k := List.mem_map_of_mem hg
  cases k <;> simp [Model.files, hfile]

theorem importGroup_eq (hfolder : t.isFolder s.folder = true) (k : Kind) (id : String) :
    (s.importGroup t k id : Import A Unit) = (do
      let name := Model.groupName k (← get).1.identifier id
      edit (k.restore (← liftExcept (s.fetch t (join s.folder name) k.format)))) := by
  rw [importGroup, checkFolder, if_pos hfolder]
  cases k <;> rfl

theorem importModel_eq (hfolder : t.isFolder s.folder = true) :
    (s.importModel t : Import A Unit) = (do
      let model := (← get).1.identifier
      let header ← liftExcept (s.fetch t (join s.folder (Model.headerName model)) Format.header)
      header.constantGroups.keys.forM (s.importGroup t .constant)
      header.variableGroups.keys.forM (s.importGroup t .var)
      header.constraintGroups.keys.forM (s.importGroup t .constraint)
      edit (Edit.restoreHeader header)
      modify fun w => (w.1, w.2 ++ [.modelImported model s.folder])) := by
  rw [importModel, checkFolder, if_pos hfolder]
  rfl

theorem sameOn_importGroup (hfolder : t.isFolder s.folder = true) (h : s.Holds m.files t)
    {g : Stored.Group k.Form} (hg : g ∈ m.storedGroups k) :
    SameOn (A := A') m.identifier (s.importGroup t k g.identifier) (s.readGroup m.identifier k g) := by
  have hread : t.read (join s.folder (Model.groupName k m.identifier g.identifier)) =
      .ok (k.format.encodePretty g) := h (m.groupFile k g) (mem_files hg)
  rw [importGroup_eq hfolder]
  refine sameOn_get fun w hw => ?_
  simp only [hw, fetch_of_read hread]
  exact sameOn_lift fun g _ => .of_keeps (keeps_edit (keeps_restore (restoring_identifier _) k g))

theorem identifiers_storedGroups (m : Model A) (k : Kind) :
    (m.storedGroups k).map (·.identifier) = m.groupIds k := by
  simp only [Model.storedGroups, Registry.stored, Model.groupIds, Table.keys, List.map_map]
  rfl

theorem sameOn_importGroups (hfolder : t.isFolder s.folder = true) (h : s.Holds m.files t) (k : Kind) :
    SameOn (A := A') m.identifier ((m.groupIds k).forM (s.importGroup t k))
      ((m.storedGroups k).forM (s.readGroup m.identifier k)) := by
  rw [← identifiers_storedGroups, List.forM_eq_forM, List.forM_map]
  exact sameOn_forM fun g hg => sameOn_importGroup hfolder h hg

/-- An import sees of the folder only the files of the model that it is about. -/
theorem sameOn_importModel (hfolder : t.isFolder s.folder = true) (h : s.Holds m.files t) :
    SameOn (A := A') m.identifier (s.importModel t) (s.readModel m) := by
  have hread : t.read (join s.folder (Model.headerName m.identifier)) =
      .ok (Format.header.encodePretty m.storeHeader) := h (Model.headerName m.identifier, _) List.mem_cons_self
  have hgroups (k : Kind) (ids : Stored.Names) (hids : ids = (m.registry k).groups.map fun _ _ => ()) :
      SameOn (A := A') m.identifier (ids.keys.forM (s.importGroup t k))
        ((m.storedGroups k).forM (s.readGroup m.identifier k)) := by
    rw [hids, Table.keys_map]
    exact sameOn_importGroups hfolder h k
  rw [importModel_eq hfolder]
  refine sameOn_get fun w hw => ?_
  simp only [hw, fetch_of_read hread]
  refine sameOn_lift fun header hok => ?_
  have hread := (reread_eq_ok Format.header_rereads).mp hok
  obtain ⟨hvars, hconstraints, hconstants, -⟩ := Stored.Header.reread_eq_some hread
  refine (hgroups .constant _ hconstants).bind fun _ => (hgroups .var _ hvars).bind fun _ =>
    (hgroups .constraint _ hconstraints).bind fun _ => .of_keeps ?_
  exact Triple.bind (keeps_edit ((restoring_identifier _).header _)) fun _ => Triple.modify fun _ hw => hw

theorem forM_readGroup {model : String} {gs gs' : List (Stored.Group k.Form)}
    (h : gs.mapM (k.reread s.reader) = some gs') :
    (gs.forM (s.readGroup model k) : Import A Unit) = edit (gs'.forM k.restore) := by
  induction gs generalizing gs' with
  | nil =>
    cases h
    rfl
  | cons g rest ih =>
    rw [List.mapM_cons] at h
    obtain ⟨g', hg, h⟩ := Option.bind_eq_some_iff.mp h
    obtain ⟨rest', hrest, h⟩ := Option.bind_eq_some_iff.mp h
    cases h
    have hfirst : (s.readGroup model k g : Import A Unit) = edit (k.restore g') := by
      rw [readGroup, (reread_eq_ok (k.format_rereads s.reader)).mpr hg]
      rfl
    change s.readGroup model k g >>= (fun _ => rest.forM (s.readGroup model k)) =
      edit (k.restore g' >>= fun _ => rest'.forM k.restore)
    rw [edit_bind, hfirst, ih hrest]

/-- Where all numbers can be read, an import restores the document with the numbers as they are read. -/
theorem readModel_eq {d : Document Float} (h : m.document.reread s.reader = some d) :
    (s.readModel m : Import A' Unit) = (do
      edit (Edit.restore d)
      modify fun w => (w.1, w.2 ++ [.modelImported m.identifier s.folder])) := by
  obtain ⟨hheader, hvars, hconstraints, hconstants⟩ := Document.reread_eq_some.mp h
  have hheader : s.reread (Model.headerName m.identifier) Format.header m.storeHeader = .ok d.header :=
    (reread_eq_ok Format.header_rereads).mpr hheader
  have hconstants : (m.storedGroups .constant).mapM (Kind.constant.reread s.reader) = some d.constantGroups :=
    hconstants
  have hvars : (m.storedGroups .var).mapM (Kind.var.reread s.reader) = some d.variableGroups := hvars
  have hconstraints : (m.storedGroups .constraint).mapM (Kind.constraint.reread s.reader) =
      some d.constraintGroups := hconstraints
  rw [readModel, hheader, forM_readGroup hconstants, forM_readGroup hvars, forM_readGroup hconstraints,
    Edit.restore]
  simp only [edit_bind, bind_assoc]
  rfl

theorem exists_of_forM_readGroup {model : String} {gs : List (Stored.Group k.Form)}
    {w w' : Model A × List (Event Float)} (h : gs.forM (s.readGroup model k) w = (.ok (), w')) :
    ∃ gs', gs.mapM (k.reread s.reader) = some gs' := by
  induction gs generalizing w with
  | nil => exact ⟨[], rfl⟩
  | cons g rest ih =>
    obtain ⟨_, _, hfirst, h⟩ := apply_bind_eq_ok h
    obtain ⟨g', hread, -⟩ := apply_lift_bind_eq_ok hfirst
    obtain ⟨rest', hrest⟩ := ih h
    have hread : k.reread s.reader g = some g' := (reread_eq_ok (k.format_rereads s.reader)).mp hread
    exact ⟨g' :: rest', by rw [List.mapM_cons, hread, hrest]; rfl⟩

/-- An import that succeeds has read all numbers. -/
theorem exists_of_readModel {w w' : Model A' × List (Event Float)} (h : s.readModel m w = (.ok (), w')) :
    ∃ d, m.document.reread s.reader = some d := by
  obtain ⟨header, hheader, h⟩ := apply_lift_bind_eq_ok h
  obtain ⟨_, _, hconstants, h⟩ := apply_bind_eq_ok h
  obtain ⟨_, _, hvars, h⟩ := apply_bind_eq_ok h
  obtain ⟨_, _, hconstraints, -⟩ := apply_bind_eq_ok h
  have hheader : m.storeHeader.reread s.reader = some header := (reread_eq_ok Format.header_rereads).mp hheader
  obtain ⟨constants, hconstants⟩ := exists_of_forM_readGroup hconstants
  obtain ⟨vars, hvars⟩ := exists_of_forM_readGroup hvars
  obtain ⟨constraints, hconstraints⟩ := exists_of_forM_readGroup hconstraints
  exact ⟨⟨header, vars, constraints, constants⟩,
    Document.reread_eq_some.mpr ⟨hheader, hvars, hconstraints, hconstants⟩⟩

end Store
end Milp
