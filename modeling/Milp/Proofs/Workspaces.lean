import Milp.Workspace
import Milp.Proofs.Invariance

/-! Whole lives of several models in one process: what they share are a state, a journal and files,
and each model keeps what every single step of its own keeps. -/
namespace Milp

open Relation

variable {β η κ ω : Type} {A : Adapter Float η κ}

/-- What is done with models that are side by side. Files may change at any time. -/
inductive Deed (A : Adapter Float η κ) (ω : Type)
  | create (key id : String) (adapter : A.State)
  | operate (key : String) (o : Operation A ω)
  | importModel (key : String) (store : Store)
  | importGroup (key : String) (store : Store) (k : Kind) (id : String)
  | exportModel (key : String) (store : Store)
  | files (t : FileTree)

namespace Edit

variable {α γ : Type} {A : Adapter α η κ} {J : Model A → Prop} {e : Edit A β}

/-- The edit leaves the model with a property that it had. -/
def Keeps (J : Model A → Prop) (e : Edit A β) : Prop :=
  Triple (fun s => J s.1) e (fun _ s => J s.1) fun _ s => J s.1

theorem keeps_pure (b : β) : Keeps J (pure b : Edit A β) := fun _ h => h

theorem Keeps.bind {f : β → Edit A γ} (h : Keeps J e) (hf : ∀ b, Keeps J (f b)) :
    Keeps J (e >>= f) := Triple.bind h hf

theorem Keeps.discard (h : Keeps J e) : Keeps J (discard e) := h.bind fun _ => keeps_pure _

theorem keeps_forM {l : List γ} {f : γ → Edit A Unit} (h : ∀ c, Keeps J (f c)) :
    Keeps J (l.forM f) :=
  Triple.forM (fun _ (s : Model A × List (Event α)) => J s.1) fun _ c _ _ => h c

theorem keeps_model : Keeps J (model : Edit A (Model A)) := fun _ h => h

theorem keeps_record (events : List (Event α)) : Keeps J (record events : Edit A Unit) :=
  fun _ h => h

theorem keeps_look (f : Model A → Except (ModelError α) β) : Keeps J (look f) :=
  Triple.of_after fun s hs => by rwa [look_apply]

/-- What was looked at holds of what was found. -/
theorem look_triple {f : Model A → Except (ModelError α) β} {P : Model A → Prop} {G : β → Prop}
    (hG : ∀ m b, P m → f m = .ok b → G b) :
    Triple (fun s => P s.1) (look f) (fun b s => P s.1 ∧ G b) fun _ s => P s.1 := by
  intro s hs
  rw [look_apply]
  cases h : f s.1 with
  | ok b => exact ⟨hs, hG _ b hs h⟩
  | error e => exact hs

theorem declare_triple {f : Model A → Except (ModelError α) (β × Model A)}
    {events : β → List (Event α)} {P Q E : Model A → Prop} (hf : ∀ m b m', P m →
      f m = .ok (b, m') → Q m') (hP : ∀ m, P m → E m) :
    Triple (fun s => P s.1) (declare f events) (fun _ s => Q s.1) fun _ s => E s.1 := by
  intro s hs
  rw [declare_apply]
  cases h : f s.1 with
  | ok r => exact hf _ r.1 r.2 hs h
  | error e => exact hP _ hs

theorem change_triple {f : Model A → Except (ModelError α) (Model A)} {P Q E : Model A → Prop}
    (hf : ∀ m m', P m → f m = .ok m' → Q m') (hP : ∀ m, P m → E m) :
    Triple (fun s => P s.1) (change f) (fun _ s => Q s.1) fun _ s => E s.1 := by
  intro s hs
  rw [change_apply]
  cases h : f s.1 with
  | ok m => exact hf _ m hs h
  | error e => exact hP _ hs

theorem Moves.keeps {R : Model A → Model A → Prop} (hR : ∀ m m', R m m' → J m → J m')
    (he : Moves R e) : Keeps J e := by
  have hsteps {m m' : Model A} (hm : J m) (h : ReflTransGen R m m') : J m' := by
    induction h with
    | refl => exact hm
    | tail _ h ih => exact hR _ _ h ih
  exact Triple.of_after fun s hs => hsteps hs (he s)

end Edit

namespace Store

/-- Restoring groups leaves a model with a property that it had, -/
structure RestoringGroups (J : Model A → Prop) : Prop where
  constants : ∀ g, Edit.Keeps J (Edit.restoreConstants g)
  vars : ∀ g, Edit.Keeps J (Edit.restoreVariables g)
  constraints : ∀ g, Edit.Keeps J (Edit.restoreConstraints g)

/-- and so does restoring a header. -/
structure Restoring (J : Model A → Prop) : Prop extends RestoringGroups J where
  header : ∀ h, Edit.Keeps J (Edit.restoreHeader h)

section Covers

variable {R : Model A → Model A → Prop} {J : Model A → Prop}

theorem restoringGroups_of_covers (hR : Edit.CoversGroups R) (hJ : ∀ m m', R m m' → J m → J m') :
    RestoringGroups J where
  constants g := (Edit.moves_restoreConstants hR g).keeps hJ
  vars g := (Edit.moves_restoreVariables hR g).keeps hJ
  constraints g := (Edit.moves_restoreConstraints hR g).keeps hJ

theorem restoring_of_covers (hR : Edit.Covers R) (hJ : ∀ m m', R m m' → J m → J m') : Restoring J where
  toRestoringGroups := restoringGroups_of_covers hR.toCoversGroups hJ
  header h := (Edit.moves_restoreHeader hR h).keeps hJ

end Covers

theorem restoring_of_changes {J : Model A → Prop}
    (hJ : ∀ m m', Model.Change m m' → J m → J m') : Restoring J :=
  restoring_of_covers Edit.covers_change hJ

/-- The import leaves the model with a property that it had. -/
def Keeps (J : Model A → Prop) (x : Import A β) : Prop :=
  Triple (fun w => J w.1) x (fun _ w => J w.1) fun _ w => J w.1

variable {J : Model A → Prop}

theorem keeps_lift (r : Except StoreError β) : Keeps J (liftExcept r : Import A β) := by
  intro w hw
  cases r <;> exact hw

theorem edit_apply (e : Edit A β) (w : Model A × List (Event Float)) :
    edit e w = ((e w).1.mapError StoreError.model, (e w).2) := rfl

theorem triple_edit {P E : Model A → Prop} {Q : β → Model A → Prop} {e : Edit A β}
    (he : Triple (fun s => P s.1) e (fun b s => Q b s.1) fun _ s => E s.1) :
    Triple (fun w => P w.1) (edit e) (fun b w => Q b w.1) fun _ w => E w.1 := by
  intro w hw
  have hends := he w hw
  rw [edit_apply]
  revert hends
  match e w with
  | (.ok b, _) => exact id
  | (.error x, _) => exact id

theorem keeps_edit {e : Edit A β} (he : Edit.Keeps J e) : Keeps J (edit e) :=
  triple_edit (Q := fun _ => J) he

/-- What it depends on the state for is where to look for the files. -/
theorem keeps_get {f : Model A × List (Event Float) → Import A β} (h : ∀ w, Keeps J (f w)) :
    Keeps J (get >>= f) := fun w hw => h w w hw

section RestoringGroups

variable (hJ : RestoringGroups J) {K : Model A → Prop}
include hJ

/-- Restoring a document is restoring groups and then a header, -/
theorem restore_triple
    (hheader : ∀ h, Triple (fun s => J s.1) (Edit.restoreHeader h : Edit A Unit) (fun _ s => K s.1)
      fun _ s => J s.1) (d : Document Float) :
    Triple (fun s => J s.1) (Edit.restore d : Edit A Unit) (fun _ s => K s.1) fun _ s => J s.1 :=
  Triple.bind (Edit.keeps_forM hJ.constants) fun _ => Triple.bind (Edit.keeps_forM hJ.vars) fun _ =>
    Triple.bind (Edit.keeps_forM hJ.constraints) fun _ => hheader d.header

theorem keeps_importGroup (s : Store) (t : FileTree) (k : Kind) (id : String) :
    Keeps J (s.importGroup t k id : Import A Unit) := by
  refine Triple.bind (keeps_lift _) fun _ => keeps_get fun w => ?_
  cases k with
  | var => exact Triple.bind (keeps_lift _) fun g => keeps_edit (hJ.vars g)
  | constraint => exact Triple.bind (keeps_lift _) fun g => keeps_edit (hJ.constraints g)
  | constant => exact Triple.bind (keeps_lift _) fun g => keeps_edit (hJ.constants g)

/-- and an import comes down to the same. -/
theorem importModel_triple
    (hheader : ∀ h, Triple (fun s => J s.1) (Edit.restoreHeader h : Edit A Unit) (fun _ s => K s.1)
      fun _ s => J s.1) (s : Store) (t : FileTree) :
    Triple (fun w => J w.1) (s.importModel t : Import A Unit) (fun _ w => K w.1) fun _ w => J w.1 := by
  have hgroups (k : Kind) (ids : List String) :
      Keeps J (ids.forM (s.importGroup t k) : Import A Unit) :=
    Triple.forM (fun _ (w : Model A × List (Event Float)) => J w.1) fun _ id _ _ =>
      keeps_importGroup hJ s t k id
  refine Triple.bind (keeps_lift _) fun _ => Triple.get_bind fun w hw =>
    Triple.from_state (P := fun w => J w.1) ?_ hw
  refine Triple.bind (keeps_lift _) fun header => Triple.bind (hgroups .constant _) fun _ =>
    Triple.bind (hgroups .var _) fun _ => Triple.bind (hgroups .constraint _) fun _ =>
      Triple.bind (triple_edit (hheader header)) fun _ => ?_
  exact Triple.modify fun _ h => h

end RestoringGroups

theorem keeps_importModel (hJ : Restoring J) (s : Store) (t : FileTree) :
    Keeps J (s.importModel t : Import A Unit) :=
  importModel_triple hJ.toRestoringGroups hJ.header s t

end Store

namespace Workspace

/-- Nothing is there yet but what is shared. -/
def fresh (world : ω) (files : FileTree) : Workspace A ω := { world, files }

/-- What there is of a run of the model of a bench. -/
def runOf (w : Workspace A ω) (b : Bench A ω) : Run A ω :=
  { model := b.model, agenda := b.agenda, world := w.world, journal := w.journal }

/-- The workspace after an operation on one of its models. -/
def operate (w : Workspace A ω) (key : String) (b : Bench A ω) : Operation A ω → Workspace A ω
  | .declare P => (w.run key b P.run).2
  | .init => (w.run key b Run.init).2
  | .compute => (w.run key b Run.compute).2
  | .extract => (w.run key b Run.extract).2

/-- The workspace after a deed. One on a model that is not there does nothing. -/
def after (w : Workspace A ω) : Deed A ω → Workspace A ω
  | .create key id adapter => (w.create key id adapter).2
  | .operate key o => match w.benches.find? key with
    | some b => w.operate key b o
    | none => w
  | .importModel key store => match w.benches.find? key with
    | some b => (w.importing key b store.importModel).2
    | none => w
  | .importGroup key store k id => match w.benches.find? key with
    | some b => (w.importing key b fun t => store.importGroup t k id).2
    | none => w
  | .exportModel key store => match w.benches.find? key with
    | some b => (w.exporting (store.exportModel b.model)).2
    | none => w
  | .files t => { w with files := t }

def afterAll (w : Workspace A ω) (ds : List (Deed A ω)) : Workspace A ω := ds.foldl after w

theorem operate_eq (w : Workspace A ω) (key : String) (b : Bench A ω) (o : Operation A ω) :
    w.operate key b o = { w with
      benches := w.benches.insert key
        ⟨((w.runOf b).after o).model, ((w.runOf b).after o).agenda⟩
      world := ((w.runOf b).after o).world
      journal := ((w.runOf b).after o).journal } := by
  cases o <;> rfl

variable {J : Model A → Prop} {w w' : Workspace A ω}

/-- All that a deed can do: nothing to the models, or put a new one under a key, or take one further by
an operation, or restore something on one. -/
inductive Effect (w w' : Workspace A ω) (d : Deed A ω) : Prop
  | none (hb : w'.benches = w.benches) (hw : w'.world = w.world) (hc : w'.created = w.created)
  | created (key id : String) (adapter : A.State) (hd : d = .create key id adapter)
      (hb : w'.benches = w.benches.insert key { model := .new ⟨w.created⟩ id adapter })
      (hw : w'.world = w.world) (hc : w'.created = w.created + 1)
  | operated (key : String) (o : Operation A ω) (hd : d = .operate key o) (b : Bench A ω)
      (hkey : w.benches.find? key = some b)
      (hb : w'.benches = w.benches.insert key
        ⟨((w.runOf b).after o).model, ((w.runOf b).after o).agenda⟩)
      (hw : w'.world = ((w.runOf b).after o).world) (hc : w'.created = w.created)
  | restored (key : String) (b : Bench A ω) (hkey : w.benches.find? key = some b) (m : Model A)
      (hm : ∀ J : Model A → Prop, Store.Restoring J → J b.model → J m)
      (hb : w'.benches = w.benches.insert key { b with model := m }) (hw : w'.world = w.world)
      (hc : w'.created = w.created)

theorem effect_importing (d : Deed A ω) {key : String} {b : Bench A ω}
    (hb : w.benches.find? key = some b) {work : FileTree → Store.Import A β}
    (hwork : ∀ J, Store.Restoring J → Store.Keeps J (work w.files)) :
    w.Effect (w.importing key b work).2 d :=
  .restored key b hb _ (fun J hJ hm => Triple.after (hwork J hJ) (s := (b.model, w.journal)) hm) rfl
    rfl rfl

theorem effect_after (w : Workspace A ω) (d : Deed A ω) : w.Effect (w.after d) d := by
  cases d with
  | create key id adapter => exact .created key id adapter rfl rfl rfl rfl
  | operate key o =>
    simp only [after]
    split
    next b hb =>
      rw [operate_eq]
      exact .operated key o rfl b hb rfl rfl rfl
    next => exact .none rfl rfl rfl
  | importModel key store =>
    simp only [after]
    split
    next b hb => exact effect_importing _ hb fun J hJ => Store.keeps_importModel hJ store w.files
    next => exact .none rfl rfl rfl
  | importGroup key store k id =>
    simp only [after]
    split
    next b hb =>
      exact effect_importing _ hb fun J hJ => Store.keeps_importGroup hJ.toRestoringGroups store w.files k id
    next => exact .none rfl rfl rfl
  | exportModel key store =>
    simp only [after]
    split <;> exact .none rfl rfl rfl
  | files t => exact .none rfl rfl rfl

/-- What every deed keeps lasts. -/
theorem invariant_afterAll {I : Workspace A ω → Prop} {Q : Deed A ω → Prop}
    (hI : ∀ w d, I w → Q d → I (w.after d)) (hw : I w) (ds : List (Deed A ω)) (hds : ∀ d ∈ ds, Q d) :
    I (w.afterAll ds) := by
  induction ds generalizing w with
  | nil => exact hw
  | cons d rest ih =>
    exact ih (hI w d hw (hds d List.mem_cons_self)) fun d' hd' => hds d' (List.mem_cons_of_mem _ hd')

/-- Each model that is there has the property. -/
def Each (J : Model A → Prop) (w : Workspace A ω) : Prop :=
  ∀ key b, w.benches.find? key = some b → J b.model

theorem Each.put (h : w.Each J) {key : String} {b : Bench A ω}
    (hw : w'.benches = w.benches.insert key b) (hb : J b.model) : w'.Each J := by
  intro key' b' hb'
  rw [hw, Table.find?_insert] at hb'
  split at hb'
  · cases hb'
    exact hb
  · exact h key' b' hb'

theorem each_fresh (J : Model A → Prop) (world : ω) (files : FileTree) :
    Each J (fresh world files) := by
  intro key b hb
  rw [fresh, Table.find?_empty] at hb
  cases hb

variable (hJ : ∀ m m', Model.Tick m m' → J m → J m') (hnew : ∀ token id σ, J (.new token id σ))
include hJ hnew

/-- What every step of a model keeps is kept of all of them by whatever is done, -/
theorem each_after (h : w.Each J) (d : Deed A ω) : (w.after d).Each J := by
  cases effect_after w d with
  | none hb => exact fun key b hkey => h key b (hb ▸ hkey)
  | created key id adapter _ hb => exact h.put hb (hnew _ _ _)
  | operated key o _ b hkey hb =>
    exact h.put hb (Run.keeps_after hJ (s := w.runOf b) (h key b hkey) o)
  | restored key b hkey m hm hb =>
    have hchanges : Store.Restoring J := Store.restoring_of_changes fun m m' hc => hJ m m' (.change hc)
    exact h.put hb (hm J hchanges (h key b hkey))

/-- and so it holds of every model at any time. -/
theorem each_afterAll (world : ω) (files : FileTree) (ds : List (Deed A ω)) :
    Each J ((fresh world files).afterAll ds) :=
  invariant_afterAll (I := Each J) (Q := fun _ => True) (fun _ d h _ => each_after hJ hnew h d)
    (each_fresh J world files) ds fun _ _ => trivial

end Workspace

/-- The model is one that a process can have, after any deeds on its models and any change of its files. -/
def Model.Reached (m : Model A) : Prop :=
  ∃ (ω : Type) (world : ω) (files : FileTree) (ds : List (Deed A ω)) (key : String) (b : Bench A ω),
    ((Workspace.fresh world files).afterAll ds).benches.find? key = some b ∧ b.model = m

theorem Workspace.reached {world : ω} {files : FileTree} {ds : List (Deed A ω)} {key : String} {b : Bench A ω}
    (h : ((fresh world files).afterAll ds).benches.find? key = some b) : b.model.Reached :=
  ⟨ω, world, files, ds, key, b, h, rfl⟩

theorem Model.Reached.invariant {J : Model A → Prop} (hJ : ∀ m m', Model.Tick m m' → J m → J m')
    (hnew : ∀ token id σ, J (.new token id σ)) {m : Model A} (h : m.Reached) : J m := by
  obtain ⟨ω, world, files, ds, key, b, hb, rfl⟩ := h
  exact Workspace.each_afterAll hJ hnew world files ds key b hb

theorem Model.Reached.attained {m : Model A} (h : m.Reached) : m.Attained :=
  h.invariant (J := Model.Attained) (fun _ _ ht hm => hm.tick ht) Model.attained_new

end Milp
