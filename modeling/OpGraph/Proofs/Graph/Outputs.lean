import Mathlib.Data.List.Dedup
import OpGraph.Proofs.Graph.Placed
import OpGraph.Proofs.Model.RoundTrip

/-!
Repeated graph outputs. Declaring an output that is one already changes nothing, but when one graph
output takes the place of another, the list keeps both places. The outputs of a graph are distinct
as long as that has not happened, and once it has happened they never are again, because nothing
takes a place out of the list. A model has all places, and reading it declares the outputs one by
one, so an output that is written twice is read once.
-/

namespace OpGraph

namespace Graph

variable {g g' : Graph}

/-- What can be done to a graph: an edit, a write to the log, or a draft that is committed. -/
inductive Change where
  | edit (m : Mutation)
  | record (log : Log)
  | commit (d : Draft)

def Change.run (g : Graph) : Change → Except Fault Graph
  | edit m => m.run g
  | record log => .ok { g with log }
  | commit d => Prod.snd <$> d.build g

def changeAll (g : Graph) (changes : List Change) : Except Fault Graph :=
  changes.foldlM Change.run g

def Change.Merges (outputs : List ArgId) : Change → Prop
  | edit (.replaceAllUses old new) => old ≠ new ∧ old ∈ outputs ∧ new ∈ outputs
  | _ => False

/-- On the way, one of the outputs takes the place of another one. -/
def Merging (g : Graph) (changes : List Change) : Prop :=
  ∃ before c after s, changes = before ++ c :: after ∧ g.changeAll before = .ok s ∧
    c.Merges s.outputs

/-! ### One change -/

def Mutation.outputsAfter (outputs : List ArgId) : Mutation → List ArgId
  | addOutput a => if a ∈ outputs then outputs else outputs ++ [a]
  | replaceAllUses old new => outputs.map fun a => if a = old then new else a
  | _ => outputs

def Change.outputsAfter (outputs : List ArgId) : Change → List ArgId
  | edit m => m.outputsAfter outputs
  | _ => outputs

theorem outputs_addOutput {a : ArgId} (hrun : g.addOutput a = .ok g') :
    g'.outputs = if a ∈ g.outputs then g.outputs else g.outputs ++ [a] := by
  simp only [addOutput, bind_eq_ok_iff, pure_eq_ok_iff] at hrun
  obtain ⟨arg, -, rfl⟩ := hrun
  simp only [isOutput_iff]
  split <;> rfl

theorem outputs_addNode {spec : NodeSpec} (hrun : settle (addNode spec) g = .ok g') :
    g'.outputs = g.outputs := by
  obtain ⟨failure, heq⟩ | ⟨name, -, heq, -⟩ := addNode_cases spec g
  · rw [settle, heq] at hrun
    cases failure <;> cases hrun
    rfl
  · rw [settle, heq] at hrun
    cases hrun
    rfl

theorem outputs_replaceAllUses (h : g.Indexed) {old new : ArgId}
    (hrun : g.replaceAllUses old new = .ok g') :
    g'.outputs = g.outputs.map fun a => if a = old then new else a := by
  obtain ⟨-, -, ⟨rfl, rfl⟩ | ⟨-, -, hreplaced⟩⟩ := replaceAllUses_eq_ok h hrun
  · refine (List.map_congr_left fun a _ => ?_).trans (List.map_id _) |>.symm
    split
    · next heq => exact heq.symm
    · rfl
  · exact hreplaced.outputs

theorem Mutation.outputs_eq (h : g.Indexed) (m : Mutation) (hrun : m.run g = .ok g') :
    g'.outputs = m.outputsAfter g.outputs := by
  cases m with
  | newArg name type => exact (sameNodes_newArg hrun).outputs
  | addInput name type => exact (sameNodes_addInput hrun).outputs
  | addInitializer name tensor => exact (sameNodes_addInitializer hrun).outputs
  | setInitializer arg tensor => exact (sameNodes_setInitializer hrun).outputs
  | removeInitializer arg =>
    cases hrun
    rfl
  | addOutput arg => exact outputs_addOutput hrun
  | setArgType arg type => exact (sameNodes_setArgType hrun).outputs
  | addNode spec => exact outputs_addNode hrun
  | removeNode node =>
    obtain ⟨⟨removed, g'⟩, hremove, rfl⟩ := map_eq_ok_iff.mp hrun
    obtain ⟨-, -, rfl⟩ := removeNode_eq_ok h hremove
    rfl
  | setInput node slot arg =>
    obtain ⟨read, -, -, rfl⟩ := setInput_eq_ok hrun
    rfl
  | replaceAllUses old new => exact outputs_replaceAllUses h hrun
  | resolve => exact (sameNodes_resolve h hrun).outputs
  | collect =>
    obtain ⟨⟨removed, g'⟩, hcollect, rfl⟩ := map_eq_ok_iff.mp hrun
    exact (trimmed_collect h hcollect).outputs

theorem Change.indexed_outputs (h : g.Indexed) (c : Change) (hrun : c.run g = .ok g') :
    g'.Indexed ∧ g'.outputs = c.outputsAfter g.outputs := by
  cases c with
  | edit m => exact ⟨(m.evolves h hrun).indexed, m.outputs_eq h hrun⟩
  | record log =>
    cases hrun
    exact ⟨h.setLog log, rfl⟩
  | commit d =>
    obtain ⟨⟨⟨id, outputs⟩, g'⟩, hbuild, rfl⟩ := map_eq_ok_iff.mp hrun
    obtain ⟨g₁, name, spec, hindexed, hsame, hadmits, -, -, -, hrecord, -, -⟩ :=
      Draft.build_cases h hbuild
    obtain ⟨log, rfl⟩ := Draft.recordAnchor_eq_ok hrecord
    exact ⟨(hindexed.pushNode hadmits).setLog log, hsame.outputs⟩

theorem nodup_swap_iff {outputs : List ArgId} {old new : ArgId} :
    (outputs.map fun a => if a = old then new else a).Nodup ↔
      outputs.Nodup ∧ ¬ (old ≠ new ∧ old ∈ outputs ∧ new ∈ outputs) := by
  constructor
  · intro hnodup
    refine ⟨.of_map _ hnodup, ?_⟩
    rintro ⟨hne, hold, hnew⟩
    refine hne (List.inj_on_of_nodup_map hnodup hold hnew ?_)
    rw [if_pos rfl, if_neg (Ne.symm hne)]
  · rintro ⟨hnodup, hmerge⟩
    refine hnodup.map_on ?_
    intro a ha b hb heq
    -- Of two different args that become one, one is `old` and the other `new`.
    by_contra hne
    apply hmerge
    split at heq <;> split at heq <;> simp_all

theorem Change.nodup_outputsAfter_iff (c : Change) (outputs : List ArgId) :
    (c.outputsAfter outputs).Nodup ↔ outputs.Nodup ∧ ¬ c.Merges outputs := by
  cases c with
  | edit m =>
    cases m with
    | replaceAllUses old new => exact nodup_swap_iff
    | addOutput a =>
      simp only [outputsAfter, Mutation.outputsAfter, Merges, not_false_eq_true, and_true]
      split
      · rfl
      · next ha =>
        rw [List.nodup_append_comm, List.singleton_append, List.nodup_cons]
        exact and_iff_right ha
    | _ => exact (and_iff_left id).symm
  | _ => exact (and_iff_left id).symm

/-! ### Sequences of changes -/

theorem merging_cons_iff {c : Change} {changes : List Change} {s : Graph} (hrun : c.run g = .ok s) :
    g.Merging (c :: changes) ↔ c.Merges g.outputs ∨ s.Merging changes := by
  constructor
  · rintro ⟨before, c', after, s', hsplit, hbefore, hmerge⟩
    cases before with
    | nil =>
      cases hsplit
      cases hbefore
      exact .inl hmerge
    | cons first before =>
      cases hsplit
      rw [changeAll, List.foldlM_cons, hrun, ok_bind] at hbefore
      exact .inr ⟨before, c', after, s', rfl, hbefore, hmerge⟩
  · rintro (hmerge | ⟨before, c', after, s', rfl, hbefore, hmerge⟩)
    · exact ⟨[], c, changes, g, rfl, rfl, hmerge⟩
    · refine ⟨c :: before, c', after, s', rfl, ?_, hmerge⟩
      rwa [changeAll, List.foldlM_cons, hrun, ok_bind]

theorem nodup_outputs_iff (h : g.Indexed) {changes : List Change}
    (hrun : g.changeAll changes = .ok g') :
    g'.Indexed ∧ (g'.outputs.Nodup ↔ g.outputs.Nodup ∧ ¬ g.Merging changes) := by
  induction changes generalizing g with
  | nil =>
    cases hrun
    refine ⟨h, (and_iff_left ?_).symm⟩
    rintro ⟨before, c, after, s, hsplit, -⟩
    cases before <;> cases hsplit
  | cons c changes ih =>
    rw [changeAll, List.foldlM_cons, bind_eq_ok_iff] at hrun
    obtain ⟨s, hstep, hrest⟩ := hrun
    obtain ⟨hs, houtputs⟩ := c.indexed_outputs h hstep
    obtain ⟨hg', hiff⟩ := ih hs hrest
    refine ⟨hg', ?_⟩
    rw [hiff, houtputs, c.nodup_outputsAfter_iff, merging_cons_iff hstep, not_or, and_assoc]

end Graph

/-! ### Outputs that are written and read -/

namespace Model

open OpGraph.Graph

variable {g g' : Graph} {external : Option String} {threshold : Nat} {stored : Model × Bytes}

theorem outputs_addArg {arg : ModelArg} (hrun : addArg g arg = .ok g') : g'.outputs = g.outputs :=
  (sameNodes_newArg (edit_eq_ok hrun)).outputs

theorem outputs_addInput {name : String} (hrun : addInput g name = .ok g') :
    g'.outputs = g.outputs := by
  simp only [addInput, bind_eq_ok_iff, pure_eq_ok_iff] at hrun
  obtain ⟨a, -, rfl⟩ := hrun
  rfl

theorem outputs_addInitializer {data : Option Bytes} {entry : ModelInitializer}
    (hrun : addInitializer data g entry = .ok g') : g'.outputs = g.outputs := by
  simp only [addInitializer, bind_eq_ok_iff, ofFault_eq_ok_iff] at hrun
  obtain ⟨a, -, payload, -, -, -, hset⟩ := hrun
  exact (sameNodes_setInitializer hset).outputs

theorem outputs_addNode {entry : ModelNode} (hrun : addNode g entry = .ok g') :
    g'.outputs = g.outputs := by
  simp only [addNode, bind_eq_ok_iff] at hrun
  obtain ⟨inputs, -, outputs, -, hedit⟩ := hrun
  exact Graph.outputs_addNode (edit_eq_ok hedit)

theorem outputs_addOutput {name : String} (hrun : addOutput g name = .ok g') :
    ∃ a, g.findArg? name = some a ∧ g'.findArg? = g.findArg? ∧
      g'.outputs = (Change.edit (.addOutput a)).outputsAfter g.outputs := by
  simp only [addOutput, bind_eq_ok_iff, ofFault_eq_ok_iff] at hrun
  obtain ⟨a, ha, hrun⟩ := hrun
  refine ⟨a, lookup_eq_ok ha, ?_, Graph.outputs_addOutput hrun⟩
  simp only [Graph.addOutput, bind_eq_ok_iff, pure_eq_ok_iff] at hrun
  obtain ⟨arg, -, rfl⟩ := hrun
  split <;> rfl

theorem mem_outputs_addOutputs (names : List String) (hnodup : g.outputs.Nodup)
    (hrun : names.foldlM addOutput g = .ok g') :
    g'.outputs.Nodup ∧ g'.findArg? = g.findArg? ∧
      (∀ name ∈ names, ∃ a ∈ g'.outputs, g.findArg? name = some a) ∧
      ∀ a, a ∈ g'.outputs ↔ a ∈ g.outputs ∨ ∃ name ∈ names, g.findArg? name = some a := by
  induction names generalizing g with
  | nil =>
    cases hrun
    exact ⟨hnodup, rfl, by simp, by simp⟩
  | cons name names ih =>
    rw [List.foldlM_cons, bind_eq_ok_iff] at hrun
    obtain ⟨s, hstep, hrest⟩ := hrun
    obtain ⟨a, ha, hfind, houtputs⟩ := outputs_addOutput hstep
    have hs : s.outputs.Nodup := by
      rw [houtputs, Change.nodup_outputsAfter_iff]
      exact ⟨hnodup, id⟩
    have hmem : ∀ b, b ∈ s.outputs ↔ b ∈ g.outputs ∨ b = a := by
      intro b
      rw [houtputs, Change.outputsAfter, Mutation.outputsAfter]
      split
      · next hout => exact (or_iff_left_of_imp fun heq => heq ▸ hout).symm
      · rw [List.mem_append, List.mem_singleton]
    obtain ⟨hdistinct, hsame, hfound, hall⟩ := ih hs hrest
    rw [hfind] at hsame hfound hall
    have hfirst : ∀ b, g.findArg? name = some b ↔ b = a := by
      intro b
      rw [ha, Option.some_inj, eq_comm]
    refine ⟨hdistinct, hsame, ?_, ?_⟩
    · rw [List.forall_mem_cons]
      exact ⟨⟨a, (hall a).mpr (.inl ((hmem a).mpr (.inr rfl))), ha⟩, hfound⟩
    · intro b
      simp only [hall b, hmem b, or_assoc, List.mem_cons, exists_eq_or_imp, hfirst]

theorem outputs_toGraph {m : Model} {data : Option Bytes} (hrun : m.toGraph data = .ok g) :
    g.outputs.Nodup ∧ (∀ name ∈ m.outputs, ∃ a ∈ g.outputs, g.findArg? name = some a) ∧
      ∀ a ∈ g.outputs, ∃ name ∈ m.outputs, g.findArg? name = some a := by
  simp only [toGraph, bind_eq_ok_iff] at hrun
  obtain ⟨g₁, hargs, g₂, hinputs, g₃, hinits, g₄, hnodes, houtputs⟩ := hrun
  have h₁ : g₁.outputs = [] := foldlM_keeps (P := fun s => s.outputs = []) m.args
    (fun _ _ _ _ hs hstep => (outputs_addArg hstep).trans hs) _ _ rfl hargs
  have h₂ : g₂.outputs = [] := foldlM_keeps (P := fun s => s.outputs = []) m.inputs
    (fun _ _ _ _ hs hstep => (outputs_addInput hstep).trans hs) _ _ h₁ hinputs
  have h₃ : g₃.outputs = [] := foldlM_keeps (P := fun s => s.outputs = []) m.initializers
    (fun _ _ _ _ hs hstep => (outputs_addInitializer hstep).trans hs) _ _ h₂ hinits
  have h₄ : g₄.outputs = [] := foldlM_keeps (P := fun s => s.outputs = []) m.nodes
    (fun _ _ _ _ hs hstep => (outputs_addNode hstep).trans hs) _ _ h₃ hnodes
  obtain ⟨hnodup, hfind, hfound, hmem⟩ :=
    mem_outputs_addOutputs m.outputs (by rw [h₄]; exact List.nodup_nil) houtputs
  rw [← hfind, h₄] at hmem
  rw [← hfind] at hfound
  refine ⟨hnodup, hfound, fun a ha => ?_⟩
  exact ((hmem a).mp ha).resolve_left List.not_mem_nil

theorem length_outputs_toGraph {m : Model} {data : Option Bytes} (hrun : m.toGraph data = .ok g) :
    g.outputs.length = m.outputs.dedup.length := by
  have h := indexed_toGraph hrun
  obtain ⟨hnodup, hfound, hnamed⟩ := outputs_toGraph hrun
  have hname : ∀ name a, g.findArg? name = some a → g.nameOf a = name := by
    intro name a hfind
    obtain ⟨arg, harg, rfl⟩ := h.findArg?_eq_some_iff.mp hfind
    exact nameOf_eq harg
  have hperm : (g.outputs.map g.nameOf).Perm m.outputs.dedup := by
    rw [List.perm_ext_iff_of_nodup (h.nodup_map_nameOf h.outputs_live hnodup) (List.nodup_dedup _)]
    intro name
    rw [List.mem_map, List.mem_dedup]
    constructor
    · rintro ⟨a, ha, rfl⟩
      obtain ⟨name, hmem, hfind⟩ := hnamed a ha
      rwa [hname name a hfind]
    · intro hmem
      obtain ⟨a, ha, hfind⟩ := hfound name hmem
      exact ⟨a, ha, hname name a hfind⟩
  rw [← hperm.length_eq, List.length_map]

theorem toModel_eq_ok (h : g.Indexed) (hrun : g.toModel external threshold = .ok stored) :
    stored.1.isKnown = true ∧ stored.1.outputs = g.outputs.map g.nameOf ∧
      ∀ file, stored.1.externalData = some file → external = some file := by
  have houtputs : g.outputs.mapM g.argName = .ok (g.outputs.map g.nameOf) :=
    mapM_eq_map fun a ha => argName_eq (h.outputs_live a ha)
  simp only [toModel, bind_eq_ok_iff, pure_eq_ok_iff, houtputs] at hrun
  obtain ⟨⟨entries, bytes⟩, -, inputs, -, outputs, houts, order, -, nodes, -, rfl⟩ := hrun
  cases houts
  refine ⟨rfl, rfl, fun file hfile => ?_⟩
  simp only at hfile
  split at hfile
  · cases hfile
  · exact hfile

theorem load_of_save (h : g.Indexed) {path : String} {files files' : FileTree}
    (hapart : Apart path external) (hmodel : g.toModel external threshold = .ok stored)
    (hread : ofBytes? stored.1.toBytes = some stored.1)
    (hsave : g.save path external threshold files = .ok () files') :
    Graph.load files' path = stored.1.toGraph (stored.1.externalData.map fun _ => stored.2) := by
  obtain ⟨hknown, -, hfile⟩ := toModel_eq_ok h hmodel
  have hheld := heldBy_of_save hmodel (fun file hf => hapart file (hfile file hf)) hsave
  exact hheld.load hread hknown

end Model

namespace Graph

variable {g : Graph}

theorem Indexed.length_dedup_map_nameOf (h : g.Indexed) {l : List ArgId}
    (hlive : ∀ a ∈ l, (g.arg? a).isSome) : (l.map g.nameOf).dedup.length = l.dedup.length := by
  have hperm : (l.map g.nameOf).dedup.Perm (l.dedup.map g.nameOf) := by
    rw [List.perm_ext_iff_of_nodup (List.nodup_dedup _)
      (h.nodup_map_nameOf (fun a ha => hlive a (List.mem_dedup.mp ha)) (List.nodup_dedup _))]
    intro name
    simp only [List.mem_dedup, List.mem_map]
  rw [hperm.length_eq, List.length_map]

/--
The outputs of a graph are distinct exactly if none of them ever took the place of another one. The
model of the graph names all of them, and each is loaded once, so as many are loaded as were saved
exactly in that case.
-/
theorem distinct_outputs_iff_not_merging {name : String} {changes : List Change}
    (hrun : (Graph.empty name).changeAll changes = .ok g) :
    (g.outputs.Nodup ↔ ¬ (Graph.empty name).Merging changes) ∧
    ∀ path external threshold files files' stored g', Model.Apart path external →
      g.toModel external threshold = .ok stored → Model.ofBytes? stored.1.toBytes = some stored.1 →
      g.save path external threshold files = .ok () files' → load files' path = .ok g' →
      stored.1.outputs.length = g.outputs.length ∧ g'.outputs.length = g.outputs.dedup.length ∧
      (g'.outputs.length = stored.1.outputs.length ↔ ¬ (Graph.empty name).Merging changes) := by
  obtain ⟨h, hiff⟩ := nodup_outputs_iff (indexed_empty name) hrun
  have hdistinct : g.outputs.Nodup ↔ ¬ (Graph.empty name).Merging changes :=
    hiff.trans (and_iff_right List.nodup_nil)
  refine ⟨hdistinct, ?_⟩
  intro path external threshold files files' stored g' hapart hmodel hread hsave hload
  rw [Model.load_of_save h hapart hmodel hread hsave] at hload
  obtain ⟨-, hwritten, -⟩ := Model.toModel_eq_ok h hmodel
  have hlength : stored.1.outputs.length = g.outputs.length := by rw [hwritten, List.length_map]
  have hdedup : g'.outputs.length = g.outputs.dedup.length := by
    rw [Model.length_outputs_toGraph hload, hwritten, h.length_dedup_map_nameOf h.outputs_live]
  refine ⟨hlength, hdedup, ?_⟩
  rw [hlength, hdedup, ← hdistinct]
  constructor
  · intro heq
    exact List.dedup_eq_self.mp ((List.dedup_sublist _).eq_of_length heq)
  · intro hnodup
    rw [hnodup.dedup]

def twoReaders : List Change :=
  [.edit (.addInput "x" ⟨.float32, none⟩), .edit (.newArg "a" ⟨.float32, none⟩),
    .edit (.newArg "b" ⟨.float32, none⟩),
    .edit (.addNode ⟨"relu", .standard "Relu", [some ⟨0⟩], [some ⟨1⟩], ∅⟩),
    .edit (.addNode ⟨"neg", .standard "Neg", [some ⟨0⟩], [some ⟨2⟩], ∅⟩),
    .edit (.addOutput ⟨1⟩), .edit (.addOutput ⟨2⟩), .edit (.addOutput ⟨1⟩)]

theorem exists_reload (changes : List Change) (outputs : List ArgId) (read : Nat)
    (hchecks : ∃ g ∈ ((Graph.empty "pair").changeAll changes).toOption, g.outputs = outputs ∧
      (EStateM.run' (g.save "model" none 0) .empty).isSome = true ∧
      ∃ stored ∈ (g.toModel none 0).toOption, Model.ofBytes?
        (Json.prettyText 0 stored.1.toDatum).toUTF8.data.toList = some stored.1 ∧
      ∃ g' ∈ (stored.1.toGraph (stored.1.externalData.map fun _ => stored.2)).toOption,
        g'.outputs.length = read) :
    ∃ g stored files g', (Graph.empty "pair").changeAll changes = .ok g ∧ g.outputs = outputs ∧
      g.toModel none 0 = .ok stored ∧ Model.ofBytes? stored.1.toBytes = some stored.1 ∧
      g.save "model" none 0 .empty = .ok () files ∧ load files "model" = .ok g' ∧
      g'.outputs.length = read := by
  obtain ⟨g, hg, houtputs, hsaved, stored, hstored, htext, g', hg', hread⟩ := hchecks
  have hrun := eq_ok_of_mem_toOption hg
  have hmodel := eq_ok_of_mem_toOption hstored
  have hbytes : Model.ofBytes? stored.1.toBytes = some stored.1 := by
    rw [Model.toBytes, Bytes.toList_eq]
    exact htext
  obtain ⟨files, hsave⟩ : ∃ files, g.save "model" none 0 .empty = .ok () files := by
    unfold EStateM.run' EStateM.run at hsaved
    split at hsaved
    · next files heq => exact ⟨files, heq⟩
    · cases hsaved
  have hload := Model.load_of_save (nodup_outputs_iff (indexed_empty "pair") hrun).1
    (fun file hfile => by cases hfile) hmodel hbytes hsave
  refine ⟨g, stored, files, g', hrun, houtputs, hmodel, hbytes, hsave, ?_, hread⟩
  rw [hload, eq_ok_of_mem_toOption hg']

theorem distinct_outputs_of_twoReaders : ∃ g stored files g',
    (Graph.empty "pair").changeAll twoReaders = .ok g ∧
    ¬ (Graph.empty "pair").Merging twoReaders ∧ g.toModel none 0 = .ok stored ∧
    g.save "model" none 0 .empty = .ok () files ∧ load files "model" = .ok g' ∧
    stored.1.outputs.length = g.outputs.length ∧
    g'.outputs.length = stored.1.outputs.length := by
  obtain ⟨g, stored, files, g', hrun, houtputs, hmodel, hbytes, hsave, hload, -⟩ :=
    exists_reload twoReaders [⟨1⟩, ⟨2⟩] 2 (by decide +kernel)
  obtain ⟨hdistinct, hcounts⟩ := distinct_outputs_iff_not_merging hrun
  have hmerging := hdistinct.mp (by rw [houtputs]; decide)
  obtain ⟨hlength, -, hsame⟩ := hcounts "model" none 0 .empty files stored g'
    (fun file hfile => by cases hfile) hmodel hbytes hsave hload
  exact ⟨g, stored, files, g', hrun, hmerging, hmodel, hsave, hload, hlength, hsame.mpr hmerging⟩

/-- One of the two outputs takes the place of the other: it is written twice and read once. -/
theorem outputs_repeated_after_merge : ∃ g stored files g',
    (Graph.empty "pair").changeAll (twoReaders ++ [.edit (.replaceAllUses ⟨1⟩ ⟨2⟩)]) = .ok g ∧
    ¬ g.outputs.Nodup ∧ g.toModel none 0 = .ok stored ∧
    g.save "model" none 0 .empty = .ok () files ∧ load files "model" = .ok g' ∧
    stored.1.outputs.length = 2 ∧ g'.outputs.length = 1 := by
  obtain ⟨g, stored, files, g', hrun, houtputs, hmodel, -, hsave, hload, hread⟩ :=
    exists_reload (twoReaders ++ [.edit (.replaceAllUses ⟨1⟩ ⟨2⟩)]) [⟨2⟩, ⟨2⟩] 1
      (by decide +kernel)
  have h := (nodup_outputs_iff (indexed_empty "pair") hrun).1
  refine ⟨g, stored, files, g', hrun, ?_, hmodel, hsave, hload, ?_, hread⟩
  · rw [houtputs]
    decide
  · rw [(Model.toModel_eq_ok h hmodel).2.1, houtputs]
    rfl

end Graph

end OpGraph
