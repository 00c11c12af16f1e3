import Milp.Format
import Milp.Proofs.StoredNumbers
import Milp.Proofs.Table

/-! Documents that come back from their text: it stands for the document with its numbers as they are read, and
no text stands for one with a number that is not finite. -/
namespace Milp.Format

open Json Json.Codec

variable {β : Type} {c : Codec β} {P : β → Prop} {f : β → Option β} {r : NumberReader} {name : String}

/-! What can be read of any text. -/

theorem required_yields (name : String) (h : c.Yields P) : (required name c).Yields P := ⟨h, nofun⟩

theorem whenPresent_yields (name : String) (h : c.Yields P) :
    (whenPresent name c).Yields fun o => ∀ x ∈ o, P x where
  codec := h.optional
  fallback o ho := by
    cases ho
    nofun

theorem nullable_yields (name : String) (h : c.Yields P) : (nullable name c).Yields fun o => ∀ x ∈ o, P x where
  codec := h.optional
  fallback o ho := by
    cases ho
    nofun

/-- A field of which nothing is asked. -/
theorem any_yields (f : Member β) : f.Yields fun _ => True := ⟨.any _, fun _ _ => trivial⟩

theorem term_yields : term.Yields Stored.Term.Finite := by
  have hid := Members.yields_nil.cons (any_yields (whenPresent "var" .text))
  have hfields := hid.cons (required_yields "coefficient" yields_float)
  exact hfields.codec.iso fun _ h => h.1

theorem expression_yields : expression.Yields Stored.Expression.Finite := by
  have hfields := Members.yields_nil.cons (required_yields "terms" term_yields.list)
  exact hfields.codec.iso fun _ h => h.1

theorem variableForm_yields : variableForm.Yields Stored.Variable.Finite := by
  have hresult := Members.yields_nil.cons (whenPresent_yields "result" yields_float)
  have hupper := hresult.cons (nullable_yields "upperBound" yields_float)
  have hlower := hupper.cons (nullable_yields "lowerBound" yields_float)
  have htype := hlower.cons (any_yields (required "varType" varType))
  have hfields := htype.cons (any_yields (required "identifier" .text))
  exact hfields.codec.iso fun _ h => ⟨⟨h.2.2.1, h.2.2.2.1⟩, h.2.2.2.2.1⟩

theorem constraint_yields : constraint.Yields Stored.Constraint.Finite := by
  have hright := Members.yields_nil.cons (required_yields "rhs" expression_yields)
  have hoperator := hright.cons (any_yields (required "operator" comparison))
  have hleft := hoperator.cons (required_yields "lhs" expression_yields)
  have hfields := hleft.cons (any_yields (required "identifier" .text))
  exact hfields.codec.iso fun _ h => ⟨h.2.1, h.2.2.2.1⟩

theorem constant_yields : constant.Yields Stored.Constant.Finite := by
  have hvalue := Members.yields_nil.cons (required_yields "value" yields_float)
  have hfields := hvalue.cons (any_yields (required "identifier" .text))
  exact hfields.codec.iso fun _ h => h.2.1

theorem group_yields {E : Type} {member : Codec E} {P : E → Prop} (h : member.Yields P) :
    (group name member).Yields (Stored.Group.All P) := by
  have hmembers := Members.yields_nil.cons (required_yields name h.list)
  have hdescribed := hmembers.cons (any_yields (required "description" .text))
  have hfields := hdescribed.cons (any_yields (required "identifier" .text))
  exact hfields.codec.iso fun _ h => h.2.2.1

theorem solutionValue_yields : solutionValue.Yields fun v => v.Each fun x => x.isFinite = true := by
  refine yields_tagged fun a ha r ts v rest hread => ?_
  simp only [List.mem_cons, List.not_mem_nil, or_false] at ha
  rcases ha with rfl | rfl | rfl
  · obtain ⟨_, -, rfl⟩ := Decoder.exists_of_map_ok hread
    trivial
  · obtain ⟨x, hx, rfl⟩ := Decoder.exists_of_map_ok hread
    exact yields_float _ _ _ _ hx
  · obtain ⟨_, -, rfl⟩ := Decoder.exists_of_map_ok hread
    trivial

theorem get?_set {α : Type} (s : Solution α) (k k' : SolutionKey) (v : SolutionValue α) :
    (s.set k v).get? k' = if k' = k then some v else s.get? k' := by
  cases k <;> cases k' <;> rfl

/-- What reading the figures does at a key. -/
def figure (key : String) (s : Solution Float) : Decoder (Solution Float) :=
  match solutionKeys.lookup key with
  | some k => do
    Decoder.expect .colon
    return s.set k (← solutionValue.read)
  | none => throw (.unknownVariant key (solutionKeys.map (·.1)))

theorem figure_keeps {key : String} {s s' : Solution Float} {ts rest : List Json.Token} (hs : s.Finite)
    (h : figure key s r ts = .ok (s', rest)) : s'.Finite := by
  unfold figure at h
  cases hk : solutionKeys.lookup key with
  | none =>
    rw [hk] at h
    cases h
  | some k =>
    rw [hk] at h
    obtain ⟨_, _, -, h⟩ := Decoder.exists_of_bind_ok h
    obtain ⟨v, _, hv, h⟩ := Decoder.exists_of_bind_ok h
    cases h
    intro k' w hw
    rw [get?_set] at hw
    split at hw
    · cases hw
      exact solutionValue_yields _ _ _ _ hv
    · exact hs k' w hw

theorem solution_yields : solution.Yields Solution.Finite := by
  intro r ts s rest hread
  obtain ⟨_, _, -, hread⟩ := Decoder.exists_of_bind_ok hread
  exact openObject_keeps (fun _ _ _ _ _ => figure_keeps) (Solution.each_empty _) hread

theorem header_yields : header.Yields Stored.Header.Finite := by
  have hparams : ({ required "solutionParams" solution with fallback := some {}, trailing := true } :
      Member (Solution Float)).Yields Solution.Finite := by
    refine ⟨solution_yields, ?_⟩
    rintro _ ⟨⟩
    exact Solution.each_empty _
  have hdirection := (Members.yields_nil.cons hparams).cons (any_yields (whenPresent "objType" direction))
  have hobjective := hdirection.cons (whenPresent_yields "objectiveFn" expression_yields)
  have hconstants := hobjective.cons (any_yields (required "constantGroups" names))
  have hconstraints := hconstants.cons (any_yields (required "constraintGroups" names))
  have hvariables := hconstraints.cons (any_yields (required "variableGroups" names))
  have hfields := hvariables.cons (any_yields (required "identifier" .text))
  exact hfields.codec.iso fun _ h => ⟨h.2.2.2.2.1, h.2.2.2.2.2.2.1⟩

theorem document_yields : document.Yields Document.Finite := by
  have hconstants : constantGroup.Yields (Stored.Group.All Stored.Constant.Finite) := group_yields constant_yields
  have hconstraints : constraintGroup.Yields (Stored.Group.All Stored.Constraint.Finite) :=
    group_yields constraint_yields
  have hvariables : variableGroup.Yields (Stored.Group.All Stored.Variable.Finite) :=
    group_yields variableForm_yields
  have hvalues := Members.yields_nil.cons (required_yields "constantGroups" hconstants.list)
  have hlines := hvalues.cons (required_yields "constraintGroups" hconstraints.list)
  have hcolumns := hlines.cons (required_yields "varGroups" hvariables.list)
  have hfields := hcolumns.cons (required_yields "model" header_yields)
  exact hfields.codec.iso fun _ h => ⟨h.1, h.2.1, h.2.2.1, h.2.2.2.1⟩

/-! What is read of the text of a value. -/

theorem required_rereads (name : String) (h : c.Rereads r f) : (required name c).Rereads r f := ⟨h, nofun⟩

theorem whenPresent_rereads (name : String) {f : Option β → Option (Option β)} (h : c.optional.Rereads r f)
    (hnone : f none = some none) : (whenPresent name c).Rereads r f where
  codec := h
  hidden o ho := by
    cases o with
    | none => exact ⟨rfl, hnone⟩
    | some x => cases ho

theorem nullable_rereads (name : String) {f : Option β → Option (Option β)} (h : c.optional.Rereads r f) :
    (nullable name c).Rereads r f := ⟨h, nofun⟩

theorem varType_rereads : varType.Rereads r some := rereads_named fun t => by cases t <;> rfl

theorem comparison_rereads : comparison.Rereads r some := rereads_named fun c => by cases c <;> rfl

theorem direction_rereads : direction.Rereads r some := rereads_named fun d => by cases d <;> rfl

theorem status_rereads : status.Rereads r some := rereads_named fun s => by cases s <;> rfl

/-- A value that is left as it is, or is not there. -/
theorem optionMapM_some (o : Option β) : o.mapM some = some o := by cases o <;> rfl

theorem term_rereads : term.Rereads r (Stored.Term.reread r) := by
  have hid := (Members.rereads_nil (r := r)).cons
    (whenPresent_rereads "var" (rereads_text.optional present_text) rfl) (by decide)
  have hfields := hid.cons (required_rereads "coefficient" rereads_float) (by decide)
  refine (hfields.codec.iso _ _).congr fun t => ?_
  simp only [optionMapM_some, Stored.Term.reread]
  cases r.reread t.coefficient <;> rfl

theorem expression_rereads : expression.Rereads r (Stored.Expression.reread r) := by
  have hfields := (Members.rereads_nil (r := r)).cons (required_rereads "terms" term_rereads.list) (by decide)
  refine (hfields.codec.iso _ _).congr fun e => ?_
  simp only [Stored.Expression.reread]
  cases e.terms.mapM (Stored.Term.reread r) <;> rfl

theorem variableForm_rereads : variableForm.Rereads r (Stored.Variable.reread r) := by
  have hresult := (Members.rereads_nil (r := r)).cons (whenPresent_rereads "result" rereads_optional_float rfl)
    (by decide)
  have hupper := hresult.cons (nullable_rereads "upperBound" rereads_optional_float) (by decide)
  have hlower := hupper.cons (nullable_rereads "lowerBound" rereads_optional_float) (by decide)
  have htype := hlower.cons (required_rereads "varType" varType_rereads) (by decide)
  have hfields := htype.cons (required_rereads "identifier" rereads_text) (by decide)
  refine (hfields.codec.iso _ _).congr fun v => ?_
  simp only [Stored.Variable.reread]
  cases r.rereadOptional v.lower <;> cases r.rereadOptional v.upper <;> cases r.rereadOptional v.result <;> rfl

theorem constraint_rereads : constraint.Rereads r (Stored.Constraint.reread r) := by
  have hright := (Members.rereads_nil (r := r)).cons (required_rereads "rhs" expression_rereads) (by decide)
  have hoperator := hright.cons (required_rereads "operator" comparison_rereads) (by decide)
  have hleft := hoperator.cons (required_rereads "lhs" expression_rereads) (by decide)
  have hfields := hleft.cons (required_rereads "identifier" rereads_text) (by decide)
  refine (hfields.codec.iso _ _).congr fun c => ?_
  simp only [Stored.Constraint.reread]
  cases c.left.reread r <;> cases c.right.reread r <;> rfl

theorem constant_rereads : constant.Rereads r (Stored.Constant.reread r) := by
  have hvalue := (Members.rereads_nil (r := r)).cons (required_rereads "value" rereads_float) (by decide)
  have hfields := hvalue.cons (required_rereads "identifier" rereads_text) (by decide)
  refine (hfields.codec.iso _ _).congr fun c => ?_
  simp only [Stored.Constant.reread]
  cases r.reread c.value <;> rfl

/-- A group is read as its members are. -/
theorem group_rereads {E : Type} {member : Codec E} {f : E → Option E} (h : member.Rereads r f)
    (hdescription : "description" ≠ name) (hidentifier : "identifier" ≠ name) :
    (group name member).Rereads r (Stored.Group.reread f) := by
  have hmembers := (Members.rereads_nil (r := r)).cons (required_rereads name h.list) List.not_mem_nil
  have hdescribed := hmembers.cons (required_rereads "description" rereads_text)
    (by simpa [required] using hdescription)
  have hfields := hdescribed.cons (required_rereads "identifier" rereads_text)
    (by simpa [required] using hidentifier)
  refine (hfields.codec.iso _ _).congr fun g => ?_
  simp only [Stored.Group.reread]
  cases g.members.mapM f <;> rfl

theorem variableGroup_rereads : variableGroup.Rereads r (Stored.Group.reread (Stored.Variable.reread r)) :=
  group_rereads variableForm_rereads (by decide) (by decide)

theorem constraintGroup_rereads : constraintGroup.Rereads r (Stored.Group.reread (Stored.Constraint.reread r)) :=
  group_rereads constraint_rereads (by decide) (by decide)

theorem constantGroup_rereads : constantGroup.Rereads r (Stored.Group.reread (Stored.Constant.reread r)) :=
  group_rereads constant_rereads (by decide) (by decide)

theorem ofList_keys (t : Stored.Names) : Stored.Names.ofList t.keys = t := by
  have hentries : t.keys.map (fun id => (id, ())) = t.entries := by
    unfold Table.keys
    rw [List.map_map]
    exact List.map_id _
  unfold Stored.Names.ofList
  have hascending := t.ascending
  rw [← hentries] at hascending
  rw [Table.ofList_of_ascending hascending]
  exact Table.ext hentries

theorem names_rereads : names.Rereads r some := by
  refine (rereads_text.list.iso _ _).congr fun t => ?_
  rw [mapM_self.mpr fun _ _ => rfl]
  exact congrArg some (ofList_keys t)

theorem solutionValue_rereads : solutionValue.Rereads r (SolutionValue.reread r) := by
  refine rereads_tagged fun v => ?_
  cases v with
  | status s => exact ⟨_, rfl, fun rest => Decoder.map_outcome _ (status_rereads s rest)⟩
  | float x => exact ⟨_, rfl, fun rest => Decoder.map_outcome _ (rereads_float x rest)⟩
  | millis n => exact ⟨_, rfl, fun rest => Decoder.map_outcome _ (rereads_word n rest)⟩

theorem figure_outcome (k : SolutionKey) (s : Solution Float) (v : SolutionValue Float) (rest : List Json.Token) :
    figure k.name s r (.colon :: ((solutionValue.write v).spelling ++ rest)) =
      Decoder.outcome ((v.reread r).map (s.set k)) rest := by
  have hkey : solutionKeys.lookup k.name = some k := by cases k <;> rfl
  unfold figure
  rw [hkey]
  simp only
  rw [Decoder.bind_ok (Decoder.expect_ok ..)]
  exact Decoder.map_outcome (s.set k) (solutionValue_rereads v rest)

/-- The figure under a key, as it is read, in its place in another solution. -/
def fill (r : NumberReader) (s t : Solution Float) (k : SolutionKey) : Option (Solution Float) :=
  match s.get? k with
  | some v => (v.reread r).map (t.set k)
  | none => some t

theorem feeds_fill (s : Solution Float) (ks : List SolutionKey) (t : Solution Float) :
    Feeds figure r t ((ks.filterMap fun k => (s.get? k).map (k, ·)).map fun e =>
      (e.1.name, solutionValue.write e.2)) (ks.foldlM (fill r s) t) := by
  induction ks generalizing t with
  | nil => exact .nil t
  | cons k ks ih =>
    rw [List.foldlM_cons]
    cases hk : s.get? k with
    | none =>
      have hfill : fill r s t k = some t := by
        unfold fill
        rw [hk]
      simpa [hk, hfill] using ih t
    | some v =>
      have hfill : fill r s t k = (v.reread r).map (t.set k) := by
        unfold fill
        rw [hk]
      have hread := figure_outcome (r := r) k t v
      simp only [List.filterMap_cons, hk, Option.map_some, List.map_cons, hfill]
      cases hv : v.reread r with
      | none =>
        rw [hv] at hread
        exact .stop hread
      | some w =>
        rw [hv] at hread
        exact .cons hread (ih (t.set k w))

theorem foldlM_fill (s : Solution Float) : SolutionKey.all.foldlM (fill r s) {} = s.reread r := by
  have hfill (t : Solution Float) (k : SolutionKey) :
      fill r s t k = ((s.get? k).mapM (SolutionValue.reread r)).map fun
        | some w => t.set k w
        | none => t := by
    unfold fill
    cases s.get? k with
    | none => rfl
    | some v => cases hv : v.reread r <;> simp [hv]
  simp only [SolutionKey.all, List.foldlM_cons, List.foldlM_nil, hfill, Solution.get?, Solution.reread]
  cases s.status.mapM (SolutionValue.reread r) with
  | none => rfl
  | some status =>
    cases s.objective.mapM (SolutionValue.reread r) with
    | none => rfl
    | some objective =>
      cases s.mipGap.mapM (SolutionValue.reread r) with
      | none => rfl
      | some mipGap =>
        cases s.time.mapM (SolutionValue.reread r) with
        | none => rfl
        | some time => cases status <;> cases objective <;> cases mipGap <;> cases time <;> rfl

theorem solution_rereads : solution.Rereads r (Solution.reread r) := by
  intro s rest
  obtain ⟨ts, hts, hobject⟩ := (feeds_fill (r := r) s SolutionKey.all {}).openObject rest
  change solution.read r ((Json.object (s.entries.map fun e =>
    (e.1.name, solutionValue.write e.2))).spelling ++ rest) = _
  unfold Solution.entries
  rw [hts, ← foldlM_fill]
  exact hobject

theorem header_rereads : header.Rereads r (Stored.Header.reread r) := by
  have hparams : ({ required "solutionParams" solution with fallback := some {}, trailing := true } :
      Member (Solution Float)).Rereads r (Solution.reread r) := ⟨solution_rereads, fun _ h => Bool.noConfusion h⟩
  have hsolution := (Members.rereads_nil (r := r)).cons hparams (by decide)
  have hdirection := hsolution.cons
    (whenPresent_rereads "objType" (direction_rereads.optional present_named) rfl) (by decide)
  have hobjective := hdirection.cons
    (whenPresent_rereads "objectiveFn" (expression_rereads.optional fun _ => nofun) rfl) (by decide)
  have hconstants := hobjective.cons (required_rereads "constantGroups" names_rereads) (by decide)
  have hconstraints := hconstants.cons (required_rereads "constraintGroups" names_rereads) (by decide)
  have hvariables := hconstraints.cons (required_rereads "variableGroups" names_rereads) (by decide)
  have hfields := hvariables.cons (required_rereads "identifier" rereads_text) (by decide)
  refine (hfields.codec.iso _ _).congr fun h => ?_
  simp only [optionMapM_some, Stored.Header.reread]
  cases h.objective.mapM (Stored.Expression.reread r) <;> cases h.solution.reread r <;> rfl

theorem document_rereads : document.Rereads r (Document.reread r) := by
  have hvalues := (Members.rereads_nil (r := r)).cons (required_rereads "constantGroups" constantGroup_rereads.list)
    (by decide)
  have hlines := hvalues.cons (required_rereads "constraintGroups" constraintGroup_rereads.list) (by decide)
  have hcolumns := hlines.cons (required_rereads "varGroups" variableGroup_rereads.list) (by decide)
  have hfields := hcolumns.cons (required_rereads "model" header_rereads) (by decide)
  refine (hfields.codec.iso _ _).congr fun d => ?_
  simp only [Document.reread]
  cases d.header.reread r <;>
    cases d.variableGroups.mapM (Stored.Group.reread (Stored.Variable.reread r)) <;>
    cases d.constraintGroups.mapM (Stored.Group.reread (Stored.Constraint.reread r)) <;>
    cases d.constantGroups.mapM (Stored.Group.reread (Stored.Constant.reread r)) <;> rfl

/-- Where the reader gives back every finite number, a document whose numbers are finite is what its text is
read as, and any document that comes of reading some text is one of those. The records of a document
come back from their text on one line, each for itself. -/
theorem document_round_trip (hr : ∀ x : Float, x.isFinite = true → r.GivesBack x) :
    (∀ d : Document Float, d.Finite → document.decodeBy r (document.encodePretty d) = .ok d) ∧
    (∀ text d, document.decodeBy r text = .ok d →
      d.Finite ∧ document.decodeBy r (document.encodePretty d) = .ok d) ∧
    (∀ h : Stored.Header Float, h.Finite → header.decodeBy r (header.encode h) = .ok h) ∧
    (∀ g, g.All Stored.Variable.Finite → variableGroup.decodeBy r (variableGroup.encode g) = .ok g) ∧
    (∀ g, g.All Stored.Constraint.Finite → constraintGroup.decodeBy r (constraintGroup.encode g) = .ok g) ∧
    (∀ g, g.All Stored.Constant.Finite → constantGroup.decodeBy r (constantGroup.encode g) = .ok g) ∧
    (∀ c : Stored.Constraint Float, c.Finite → constraint.decodeBy r (constraint.encode c) = .ok c) ∧
    (∀ v : Stored.Variable Float, v.Finite → variableForm.decodeBy r (variableForm.encode v) = .ok v) ∧
    (∀ c : Stored.Constant Float, c.Finite → constant.decodeBy r (constant.encode c) = .ok c) ∧
    (∀ e : Stored.Expression Float, e.Finite → expression.decodeBy r (expression.encode e) = .ok e) ∧
    (∀ t : Stored.Term Float, t.Finite → term.decodeBy r (term.encode t) = .ok t) := by
  have hdocument (d : Document Float) (hd : d.Finite) : document.decodeBy r (document.encodePretty d) = .ok d :=
    document_rereads.decode_encodePretty.mpr (Document.reread_self.mpr (hd.mono hr))
  refine ⟨hdocument, fun text d hd => ?_, fun h hh => ?_, fun g hg => ?_, fun g hg => ?_, fun g hg => ?_,
    fun c hc => ?_, fun v hv => ?_, fun c hc => ?_, fun e he => ?_, fun t ht => ?_⟩
  · have hfinite := document_yields.of_decode hd
    exact ⟨hfinite, hdocument d hfinite⟩
  · exact header_rereads.decode_encode.mpr (Stored.Header.reread_self.mpr (hh.mono hr))
  · refine variableGroup_rereads.decode_encode.mpr (Stored.Group.reread_self.mpr fun v hv => ?_)
    exact Stored.Variable.reread_self.mpr ((hg v hv).mono hr)
  · refine constraintGroup_rereads.decode_encode.mpr (Stored.Group.reread_self.mpr fun c hc => ?_)
    exact Stored.Constraint.reread_self.mpr ((hg c hc).mono hr)
  · refine constantGroup_rereads.decode_encode.mpr (Stored.Group.reread_self.mpr fun c hc => ?_)
    exact Stored.Constant.reread_self.mpr (hr _ (hg c hc))
  · exact constraint_rereads.decode_encode.mpr (Stored.Constraint.reread_self.mpr (hc.mono hr))
  · exact variableForm_rereads.decode_encode.mpr (Stored.Variable.reread_self.mpr (hv.mono hr))
  · exact constant_rereads.decode_encode.mpr (Stored.Constant.reread_self.mpr (hr _ hc))
  · exact expression_rereads.decode_encode.mpr (Stored.Expression.reread_self.mpr (he.mono hr))
  · exact term_rereads.decode_encode.mpr (Stored.Term.reread_self.mpr (hr _ ht))

/-- An order with a bound that is infinite, a solve that took a while, and names that need escapes. -/
def sample : Document Float where
  header := {
    identifier := "depot \"east\"", variableGroups := .ofList ["Default"],
    constraintGroups := .ofList ["Default_Constraints"], constantGroups := .ofList ["Default_Constants"],
    objective := some ⟨[⟨0.1, some "crates"⟩, ⟨-0.0, none⟩]⟩, direction := some .maximize,
    solution := { status := some (.status .optimal), time := some (.millis 12) } }
  variableGroups := [⟨"Default", "", [⟨"crates", .integer, some 0, none, some 4⟩]⟩]
  constraintGroups := [⟨"Default_Constraints", "",
    [⟨"room", ⟨[⟨1.5, some "crates"⟩]⟩, .lessEqual, ⟨[⟨6.02e23, none⟩]⟩⟩]⟩]
  constantGroups := [⟨"Default_Constants", "", [⟨"line\nbreak", 5e-324⟩]⟩]

theorem document_round_trip_sample :
    (∀ x : Float, x.isFinite = true → NumberReader.nearest.GivesBack x) ∧ sample.Finite ∧
      document.decodeBy .nearest (document.encodePretty sample) = .ok sample ∧
        header.decodeBy .nearest (header.encode sample.header) = .ok sample.header := by
  have hnearest (x : Float) (hx : x.isFinite = true) : NumberReader.nearest.GivesBack x :=
    NumberReader.givesBack_nearest hx
  have hfinite : sample.Finite := by decide +kernel
  obtain ⟨hdocument, -, hheader, -⟩ := document_round_trip hnearest
  exact ⟨hnearest, hfinite, hdocument sample hfinite, hheader sample.header hfinite.header⟩

end Milp.Format
