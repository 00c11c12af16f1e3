import Milp.Proofs.GivenBack

/-! A model that was exported and is imported again, or captured as text and restored: the two agree, and
give back all its numbers, just when the reader gives back those that are stored. -/
namespace Milp

variable {η κ η' κ' : Type} {A : Adapter Float η κ} {A' : Adapter Float η' κ'}

namespace Model

section Files

variable {m : Model A} {m' : Model A'} {s : Store} {t t' : FileTree} {journal journal' events : List (Event Float)}

/-- Once a model was exported, all its files are in the folder. -/
theorem Kept.holds_files (h : m.Kept) (hm : m.Slashless) (hfolder : s.folder ≠ "")
    (hexport : s.exportModel m (t, journal) = (.ok (), t', journal')) : s.Holds m.files t' := by
  have hleaves : s.Leaves [] (s.exportModel m) ([] ++ m.files) :=
    Store.leaves_exportModel hfolder (fun k => (h k).coherent.named) hm.plain m.nodup_fileNames
  exact hleaves.ok nofun hexport

/-- What is imported where all files of a model are. -/
theorem Slashless.importModel_eq (hm : m.Slashless) (hfolder : s.folder ≠ "") (hfiles : s.Holds m.files t)
    {n : Model A'} (hn : n.identifier = m.identifier) (events : List (Event Float)) :
    s.importModel t (n, events) = s.readModel m (n, events) := by
  have hisFolder : t.isFolder s.folder = true := hfiles.isFolder hfolder hm.plain m.files_ne_nil
  exact (Store.sameOn_importModel hisFolder hfiles).same (n, events) hn

theorem readModel_of_each (hd : m.document.Each s.reader.GivesBack) {n m' : Model A'}
    (hr : Edit.restore m.document (n, events) = (.ok (), m', journal)) :
    s.readModel m (n, events) = (.ok (), m', journal ++ [.modelImported m.identifier s.folder]) := by
  rw [Store.readModel_eq (Document.reread_self.mpr hd), bind_apply, Store.edit_apply, hr]
  rfl

/-- An import that succeeds has restored the document as it was read. -/
theorem exists_restored {n m' : Model A'} (hi : s.readModel m (n, events) = (.ok (), m', journal)) :
    ∃ d journal', m.document.reread s.reader = some d ∧
      Edit.restore d (n, events) = (.ok (), m', journal') := by
  obtain ⟨d, hd⟩ := Store.exists_of_readModel hi
  rw [Store.readModel_eq hd] at hi
  obtain ⟨_, _, hr, hend⟩ := apply_bind_eq_ok hi
  cases hend
  exact ⟨d, _, hd, Store.edit_eq_ok hr⟩

/-- What is imported where a model was exported is drawn from its document, as that was read. -/
theorem Kept.drawn_of_import (h : m.Kept) (hs : m.Slashless) (hA' : A'.Usual) (hfolder : s.folder ≠ "")
    (hexport : s.exportModel m (t, journal) = (.ok (), t', journal')) {token : Token} {adapter : A'.State}
    {events' : List (Event Float)}
    (hi : s.importModel t' ((Model.new token m.identifier adapter : Model A'), events) = (.ok (), m', events')) :
    ∃ d, m.document.reread s.reader = some d ∧ m'.Drawn d := by
  have hfiles := h.holds_files hs hfolder hexport
  rw [hs.importModel_eq hfolder hfiles (n := Model.new token m.identifier adapter) rfl] at hi
  obtain ⟨d, _, hread, hr⟩ := exists_restored hi
  exact ⟨d, hread, drawn_of_restore hA' hr⟩

/-- An import that gives back all numbers of a model does so because those that are stored are finite. -/
theorem Kept.finite_of_import (h : m.Kept) (hregular : m.Regular) (hs : m.Slashless) (hA' : A'.Usual)
    (hfolder : s.folder ≠ "") (hexport : s.exportModel m (t, journal) = (.ok (), t', journal')) {token : Token}
    {adapter : A'.State} {events' : List (Event Float)}
    (hi : s.importModel t' ((Model.new token m.identifier adapter : Model A'), events) = (.ok (), m', events'))
    (hback : m.GivesBack m') : m.document.Finite := by
  obtain ⟨d, hread, hdrawn⟩ := h.drawn_of_import hs hA' hfolder hexport hi
  exact hback.finite_document h hregular hdrawn hread

end Files
end Model

/-- Declares boxes, a rate for them, and an objective that counts them twice. -/
def Program.price (rate cost : Float) : Program (recorder Float) Unit .group :=
  .act (.createConstant "rate" rate (.default .constant)) fun _ =>
    .act (.createVariable "boxes" .double 0 10 (.default .var)) fun
      | .error e => .finish (.error e)
      | .ok x =>
        .act (.setObjective ⟨x.owner, [.ofVariable cost x, .ofVariable cost x]⟩ .minimize) fun _ => .finish (.ok ())

def Workspace.priced (rate cost : Float) : Workspace (recorder Float) Unit :=
  (fresh () {}).afterAll [.create "depot" "depot" {}, .operate "depot" (.declare (Program.price rate cost))]

/-- Whether the depot is there and can be exported to a folder of its own, and has a property besides. -/
def Workspace.exports (w : Workspace (recorder Float) Unit) (p : Model (recorder Float) → Bool) : Bool :=
  (w.benches.find? "depot").any fun b => decide b.model.Slashless && p b.model &&
    (Store.exportModel {} b.model ({}, [])).1.toOption.isSome

theorem Workspace.exists_exported {w : Workspace (recorder Float) Unit} {p : Model (recorder Float) → Bool}
    (h : w.exports p = true) :
    ∃ b, w.benches.find? "depot" = some b ∧ b.model.Slashless ∧ p b.model = true ∧
      ∃ t journal, Store.exportModel {} b.model ({}, []) = (.ok (), t, journal) := by
  obtain ⟨b, hb, hall⟩ := (Option.any_eq_true ..).mp h
  simp only [Bool.and_eq_true, decide_eq_true_eq] at hall
  obtain ⟨⟨hs, hp⟩, hexport⟩ := hall
  exact ⟨b, hb, hs, hp, Store.exists_of_isSome hexport⟩

/-- How numbers are read is all the same to an export. -/
theorem Store.exportModel_reader (s : Store) (r : Json.NumberReader) (m : Model A) :
    ({ s with reader := r } : Store).exportModel m = s.exportModel m := rfl

theorem Workspace.exports_priced :
    (priced 2.5 1).exports fun m => decide (m.document.Each Json.NumberReader.scaling.GivesBack) := by decide +kernel

namespace Model

section Files

variable {m : Model A} {s : Store} {t t' : FileTree} {journal journal' : List (Event Float)}

/-- Exporting a model and importing it again comes to what capturing and restoring it comes to, whatever was
in the folder before, just when the reader gives back all numbers that are captured. These have to be finite, and
the numbers of the model can be finite without that: like terms are collected, and what they come to can be too
large. -/
theorem Reached.import_eq_restore (hm : m.Reached) (hA : A.Usual) (hA' : A'.Usual) (hs : m.Slashless)
    (hfolder : s.folder ≠ "") (hexport : s.exportModel m (t, journal) = (.ok (), t', journal')) (token : Token)
    (adapter : A'.State) (events : List (Event Float)) :
    ∃ d, m.capture = .ok d ∧ (d.Each s.reader.GivesBack → d.Finite) ∧ (d.Finite → m.Finite) ∧ ∃ m' events',
      Edit.restore d ((Model.new token m.identifier adapter : Model A'), events) = (.ok (), m', events') ∧
      (d.Each s.reader.GivesBack →
        s.importModel t' ((Model.new token m.identifier adapter : Model A'), events) =
          (.ok (), m', events' ++ [.modelImported m.identifier s.folder])) ∧
      (¬ d.Each s.reader.GivesBack →
        ∀ events'', s.importModel t' ((Model.new token m.identifier adapter : Model A'), events) ≠
          (.ok (), m', events'')) := by
  have hregular := hm.regular hA
  obtain ⟨events', hr⟩ := hregular.restores hA' token m.identifier adapter events
  have hfiles := hm.kept.holds_files hs hfolder hexport
  have heq := hs.importModel_eq hfolder hfiles (n := Model.new token m.identifier adapter) rfl events
  refine ⟨m.document, hm.kept.capture, Document.Each.mono fun _ => Json.NumberReader.GivesBack.isFinite,
    hm.kept.finite_of_document, _, events', hr, fun hd => ?_, fun hd events'' hi => ?_⟩
  · rw [heq, readModel_of_each hd hr]
  · rw [heq] at hi
    obtain ⟨d, _, hread, hd'⟩ := exists_restored hi
    have hbounds := hregular.bounds_of_restored hm.kept hA' hread hd'
    exact hd ((hregular.givesBack ..).each hm.kept hregular (drawn_of_restore hA' hd') hread (fun _ hx => hx) hbounds)

end Files

theorem import_eq_restore_depot :
    (recorder Float).Usual ∧ ∃ b, (Workspace.priced 2.5 1).benches.find? "depot" = some b ∧ b.model.Reached ∧
      b.model.Slashless ∧ ∃ t journal, Store.exportModel {} b.model ({}, []) = (.ok (), t, journal) ∧
        ∃ d, b.model.capture = .ok d ∧ ∃ m' events',
          Edit.restore d ((Model.new ⟨1⟩ b.model.identifier {} : Model (recorder Float)), []) =
            (.ok (), m', events') ∧
          Store.importModel {} t ((Model.new ⟨1⟩ b.model.identifier {} : Model (recorder Float)), []) =
            (.ok (), m', events' ++ [.modelImported b.model.identifier "./models/json/"]) := by
  have hA : (recorder Float).Usual := usual_recorder
  obtain ⟨b, hb, hs, heach, t, journal, hexport⟩ := Workspace.exists_exported Workspace.exports_priced
  have hm : b.model.Reached := Workspace.reached hb
  obtain ⟨d, hd, -, -, m', events', hr, hsame, -⟩ := hm.import_eq_restore hA hA hs (by decide) hexport ⟨1⟩ {} []
  have hdocument : d = b.model.document := Except.ok.inj (hd.symm.trans hm.kept.capture)
  exact ⟨hA, b, hb, hm, hs, t, journal, hexport, d, hd, m', events', hr,
    hsame (hdocument ▸ of_decide_eq_true heach)⟩

/-- The costs of the boxes are finite, but too large to be collected. What was exported is then not read
back, however numbers are read, though it is restored as it was captured. -/
theorem import_overflows :
    (recorder Float).Usual ∧ ∃ b, (Workspace.priced 2.5 1e308).benches.find? "depot" = some b ∧
      b.model.Reached ∧ b.model.Slashless ∧ b.model.Finite ∧ ∀ r : Json.NumberReader,
      ∃ t journal, Store.exportModel { reader := r } b.model ({}, []) = (.ok (), t, journal) ∧
        ∃ d, b.model.capture = .ok d ∧ ∃ m' events',
          Edit.restore d ((Model.new ⟨1⟩ b.model.identifier {} : Model (recorder Float)), []) =
            (.ok (), m', events') ∧
          ∀ events'', Store.importModel { reader := r } t
            ((Model.new ⟨1⟩ b.model.identifier {} : Model (recorder Float)), []) ≠ (.ok (), m', events'') := by
  have hA : (recorder Float).Usual := usual_recorder
  have hdepot : (Workspace.priced 2.5 1e308).exports fun m =>
      decide m.Finite && !decide m.document.Finite := by decide +kernel
  obtain ⟨b, hb, hs, hnumbers, t, journal, hexport⟩ := Workspace.exists_exported hdepot
  simp only [Bool.and_eq_true, Bool.not_eq_true', decide_eq_true_eq, decide_eq_false_iff_not] at hnumbers
  have hm : b.model.Reached := Workspace.reached hb
  have hregular := hm.regular hA
  obtain ⟨events', hr⟩ := hregular.restores hA ⟨1⟩ b.model.identifier {} []
  refine ⟨hA, b, hb, hm, hs, hnumbers.1, fun r => ?_⟩
  rw [← Store.exportModel_reader {} r] at hexport
  refine ⟨t, journal, hexport, _, hm.kept.capture, _, events', hr, fun events'' hi => ?_⟩
  have hfolder : ({ reader := r } : Store).folder ≠ "" := (by decide : "./models/json/" ≠ "")
  exact hnumbers.2 (hm.kept.finite_of_import hregular hs hA hfolder hexport hi (hregular.givesBack ..))

section Files

variable {m : Model A} {s : Store}

/-- What was exported gives back all numbers of the model just when the reader gives back those that are captured,
as long as it does so for the bounds, and so does the text of what was captured. Where any number of the model is
not finite, some of them are not given back, though the export has succeeded. -/
theorem Reached.given_back_iff (hm : m.Reached) (hA : A.Usual) (hA' : A'.Usual) (hs : m.Slashless)
    (hfolder : s.folder ≠ "") (token : Token) (id : String) (adapter : A'.State) (events : List (Event Float)) :
    ∃ d, m.capture = .ok d ∧ (d.Each s.reader.GivesBack → d.Finite) ∧ (d.Finite → m.Finite) ∧
      (let back := ∃ d' m' events', Format.document.decodeBy s.reader (Format.document.encodePretty d) = .ok d' ∧
        Edit.restore d' ((Model.new token id adapter : Model A'), events) = (.ok (), m', events') ∧ m.GivesBack m'
      (back → d.Finite) ∧ (d.Bounds s.reader.GivesBack → (back ↔ d.Each s.reader.GivesBack))) ∧
      ∀ t journal t' journal', s.exportModel m (t, journal) = (.ok (), t', journal') →
        let back := ∃ m' events', s.importModel t' ((Model.new token m.identifier adapter : Model A'), events) =
          (.ok (), m', events') ∧ m.GivesBack m'
        (back → d.Finite) ∧ (d.Bounds s.reader.GivesBack → (back ↔ d.Each s.reader.GivesBack)) := by
  have hregular := hm.regular hA
  have hdecode {d' : Document Float} :
      Format.document.decodeBy s.reader (Format.document.encodePretty m.document) = .ok d' ↔
        m.document.reread s.reader = some d' := Format.document_rereads.decode_encodePretty
  refine ⟨m.document, hm.kept.capture, Document.Each.mono fun _ => Json.NumberReader.GivesBack.isFinite,
    hm.kept.finite_of_document, ⟨?_, fun hbounds => ⟨?_, fun hd => ?_⟩⟩,
    fun t journal t' journal' hexport => ⟨?_, fun hbounds => ⟨?_, fun hd => ?_⟩⟩⟩
  · rintro ⟨d', m', events', hd', hr, hback⟩
    exact hback.finite_document hm.kept hregular (drawn_of_restore hA' hr) (hdecode.mp hd')
  · rintro ⟨d', m', events', hd', hr, hback⟩
    exact hback.each hm.kept hregular (drawn_of_restore hA' hr) (hdecode.mp hd') (fun _ hx => hx) hbounds
  · obtain ⟨events', hr⟩ := hregular.restores hA' token id adapter events
    exact ⟨_, _, _, hdecode.mpr (Document.reread_self.mpr hd), hr, hregular.givesBack ..⟩
  · rintro ⟨m', events', hi, hback⟩
    exact hm.kept.finite_of_import hregular hs hA' hfolder hexport hi hback
  · rintro ⟨m', events', hi, hback⟩
    obtain ⟨d, hread, hdrawn⟩ := hm.kept.drawn_of_import hs hA' hfolder hexport hi
    exact hback.each hm.kept hregular hdrawn hread (fun _ hx => hx) hbounds
  · obtain ⟨events', hr⟩ := hregular.restores hA' token m.identifier adapter events
    have hfiles := hm.kept.holds_files hs hfolder hexport
    have heq := hs.importModel_eq hfolder hfiles (n := Model.new token m.identifier adapter) rfl events
    exact ⟨_, _, heq.trans (readModel_of_each hd hr), hregular.givesBack ..⟩

end Files

theorem given_back_depot :
    (recorder Float).Usual ∧ ∃ b, (Workspace.priced 2.5 1).benches.find? "depot" = some b ∧ b.model.Reached ∧
      b.model.Slashless ∧ ∃ t journal, Store.exportModel {} b.model ({}, []) = (.ok (), t, journal) ∧
        ∃ m' events', Store.importModel {} t
          ((Model.new ⟨1⟩ b.model.identifier {} : Model (recorder Float)), []) = (.ok (), m', events') ∧
          b.model.GivesBack m' := by
  have hA : (recorder Float).Usual := usual_recorder
  obtain ⟨b, hb, hs, heach, t, journal, hexport⟩ := Workspace.exists_exported Workspace.exports_priced
  have hm : b.model.Reached := Workspace.reached hb
  obtain ⟨d, hd, -, -, -, hfiles⟩ := hm.given_back_iff hA hA hs (s := {}) (by decide) ⟨1⟩ "depot" {} []
  have hdocument : d = b.model.document := Except.ok.inj (hd.symm.trans hm.kept.capture)
  have heach : d.Each Json.NumberReader.scaling.GivesBack := hdocument ▸ of_decide_eq_true heach
  have hback := ((hfiles _ _ t journal hexport).2 heach.bounds).mpr heach
  exact ⟨hA, b, hb, hm, hs, t, journal, hexport, hback⟩

/-- A rate is accepted that is infinite, and exported, but not given back, however numbers are read. -/
theorem infinite_rate_lost :
    (recorder Float).Usual ∧ ∃ b, (Workspace.priced Unbounded.infinity 1).benches.find? "depot" = some b ∧
      b.model.Reached ∧ b.model.Slashless ∧ (∃ c ∈ b.model.entities .constant, c.value.isFinite = false) ∧
      ∀ r : Json.NumberReader,
        ∃ t journal, Store.exportModel { reader := r } b.model ({}, []) = (.ok (), t, journal) ∧
          ¬ ∃ m' events', Store.importModel { reader := r } t
            ((Model.new ⟨1⟩ b.model.identifier {} : Model (recorder Float)), []) = (.ok (), m', events') ∧
            b.model.GivesBack m' := by
  have hA : (recorder Float).Usual := usual_recorder
  have hdepot : (Workspace.priced Unbounded.infinity 1).exports fun m =>
      decide (∃ c ∈ m.entities .constant, c.value.isFinite = false) := by decide +kernel
  obtain ⟨b, hb, hs, hrate, t, journal, hexport⟩ := Workspace.exists_exported hdepot
  have hm : b.model.Reached := Workspace.reached hb
  obtain ⟨c, hc, hvalue⟩ := of_decide_eq_true hrate
  refine ⟨hA, b, hb, hm, hs, ⟨c, hc, hvalue⟩, fun r => ?_⟩
  rw [← Store.exportModel_reader {} r] at hexport
  refine ⟨t, journal, hexport, ?_⟩
  rintro ⟨m', events', hi, hback⟩
  have hfolder : ({ reader := r } : Store).folder ≠ "" := (by decide : "./models/json/" ≠ "")
  have hdocument := hm.kept.finite_of_import (hm.regular hA) hs hA hfolder hexport hi hback
  rw [(hm.kept.finite_of_document hdocument).constants c hc] at hvalue
  cases hvalue

end Model
end Milp
