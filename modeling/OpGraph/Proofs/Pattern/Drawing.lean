import Mathlib.Algebra.Ring.Nat
import Mathlib.Algebra.BigOperators.Group.List.Basic
import OpGraph.Proofs.Pattern.Traversal

/-!
The compact drawing of a pattern. Its items, read from the first line to the last, expand every
entry that the root leads to where the entry comes first; where it comes again, there is a reference
without anything below. A line names its entry and says what the entry matches, or that it was shown
before.
-/

namespace OpGraph

namespace Text.Tree

variable {α : Type}

def label : Tree α → α
  | node label _ => label

theorem label_mem_labels (tree : Tree α) : tree.label ∈ tree.labels := by
  cases tree
  exact List.mem_cons_self

theorem forestLabels_append (trees trees' : List (Tree α)) :
    forestLabels (trees ++ trees') = forestLabels trees ++ forestLabels trees' := by
  induction trees with
  | nil => rfl
  | cons tree rest ih => simp [forestLabels, ih]

mutual

theorem exists_drawLines (caption : α → String) (here below : String) : ∀ tree : Tree α,
    ∃ indents : List String, indents.length = tree.labels.length ∧
      drawLines caption here below tree =
        List.zipWith (fun indent label => indent ++ caption label) indents tree.labels
  | node label children => by
    obtain ⟨indents, hlength, hlines⟩ := exists_drawForest caption below children
    refine ⟨here :: indents, by simp [labels, hlength], ?_⟩
    rw [drawLines, labels, List.zipWith_cons_cons, hlines]

theorem exists_drawForest (caption : α → String) (below : String) : ∀ trees : List (Tree α),
    ∃ indents : List String, indents.length = (forestLabels trees).length ∧
      drawForest caption below trees =
        List.zipWith (fun indent label => indent ++ caption label) indents (forestLabels trees)
  | [] => ⟨[], rfl, rfl⟩
  | [tree] => by
    rw [drawForest, forestLabels, forestLabels, List.append_nil]
    exact exists_drawLines caption _ _ tree
  | tree :: next :: rest => by
    obtain ⟨indents, hlength, hlines⟩ :=
      exists_drawLines caption (below ++ "├─ ") (below ++ "│  ") tree
    obtain ⟨indents', hlength', hlines'⟩ := exists_drawForest caption below (next :: rest)
    refine ⟨indents ++ indents', ?_, ?_⟩
    · rw [forestLabels, List.length_append, List.length_append, hlength, hlength']
    · rw [drawForest, hlines, hlines', forestLabels.eq_2 tree, List.zipWith_append hlength]
      nofun

end

end Text.Tree

namespace Pattern

variable {p : Pattern}

/-! ### Items from left to right -/

def Shown.entry? : Shown → Option PatternId
  | entry id => some id
  | again _ => none

def Orderly (known : PatternId → Prop) : List Shown → Prop
  | [] => True
  | shown :: rest => (shown = .entry shown.id ↔ ¬ known shown.id) ∧
    Orderly (fun id => known id ∨ id = shown.id) rest

namespace Orderly

variable {known known' : PatternId → Prop} {items items' : List Shown}

theorem append (h : Orderly known items)
    (h' : Orderly (fun id => known id ∨ ∃ shown ∈ items, shown.id = id) items') :
    Orderly known (items ++ items') := by
  induction items generalizing known with
  | nil => simpa using h'
  | cons shown rest ih =>
    refine ⟨h.1, ih h.2 ?_⟩
    simpa [or_assoc, eq_comm] using h'

theorem entry_iff (h : Orderly known items) {i : Nat} {shown : Shown}
    (hshown : items[i]? = some shown) : shown = .entry shown.id ↔
      ¬ known shown.id ∧ ∀ j < i, ∀ other, items[j]? = some other → other.id ≠ shown.id := by
  induction items generalizing known i with
  | nil => cases hshown
  | cons first rest ih =>
    cases i with
    | zero =>
      cases hshown
      simpa using h.1
    | succ i =>
      rw [ih h.2 hshown, not_or, and_assoc, Nat.forall_lt_succ_left]
      simp [eq_comm]

theorem expanded (h : Orderly known items) : (items.filterMap Shown.entry?).Nodup ∧
    ∀ id, id ∈ items.filterMap Shown.entry? ↔ ¬ known id ∧ ∃ shown ∈ items, shown.id = id := by
  induction items generalizing known with
  | nil => simp
  | cons shown rest ih =>
    obtain ⟨hnodup, hmem⟩ := ih h.2
    cases shown with
    | entry id =>
      have hnew : ¬ known id := h.1.mp rfl
      simp only [List.filterMap_cons, Shown.entry?, List.nodup_cons]
      refine ⟨⟨?_, hnodup⟩, fun k => ?_⟩
      · rw [hmem]
        exact fun hid => hid.1 (.inr rfl)
      · simp only [List.mem_cons, hmem, exists_eq_or_imp]
        grind [Shown.id]
    | again id =>
      have hknown : known id := by
        apply not_not.mp
        intro hnew
        cases h.1.mpr hnew
      rw [List.filterMap_cons_none rfl]
      refine ⟨hnodup, fun k => ?_⟩
      simp only [List.mem_cons, hmem, exists_eq_or_imp]
      grind [Shown.id]

end Orderly

/-! ### What stands below an item -/

/-- An item that expands an entry has the children of the entry below it; any other has nothing. -/
inductive Unfolds (p : Pattern) : Text.Tree Shown → Prop where
  | again (id : PatternId) : Unfolds p (.node (.again id) [])
  | entry {id : PatternId} {trees : List (Text.Tree Shown)}
    (hchildren : trees.map (fun tree => tree.label.id) = p.childrenAt id.index)
    (htrees : ∀ tree ∈ trees, Unfolds p tree) : Unfolds p (.node (.entry id) trees)

def fanOut (p : Pattern) : Shown → Nat
  | .entry id => (p.childrenAt id.index).length
  | .again _ => 0

theorem length_forestLabels {trees : List (Text.Tree Shown)}
    (h : ∀ tree ∈ trees, tree.labels.length = 1 + (tree.labels.map p.fanOut).sum) :
    (Text.Tree.forestLabels trees).length =
      trees.length + ((Text.Tree.forestLabels trees).map p.fanOut).sum := by
  induction trees with
  | nil => rfl
  | cons tree rest ih =>
    rw [List.forall_mem_cons] at h
    rw [Text.Tree.forestLabels, List.length_append, List.map_append, List.sum_append, h.1, ih h.2,
      List.length_cons]
    omega

namespace Unfolds

variable {tree : Text.Tree Shown}

theorem length_labels (h : p.Unfolds tree) :
    tree.labels.length = 1 + (tree.labels.map p.fanOut).sum := by
  induction h with
  | again id => rfl
  | @entry id trees hchildren _ ih =>
    have hlength : trees.length = (p.childrenAt id.index).length := by
      rw [← hchildren, List.length_map]
    rw [Text.Tree.labels, List.length_cons, List.map_cons, List.sum_cons, length_forestLabels ih,
      fanOut, hlength]
    omega

theorem reaches (h : p.Unfolds tree) : ∀ shown ∈ tree.labels, p.Reaches tree.label.id shown.id := by
  induction h with
  | again id =>
    intro shown hshown
    obtain rfl : shown = .again id := List.mem_singleton.mp hshown
    exact .refl
  | @entry id trees hchildren _ ih =>
    intro shown hshown
    rcases List.mem_cons.mp hshown with rfl | hshown
    · exact .refl
    · obtain ⟨tree, htree, hshown⟩ := mem_forestLabels_iff.mp hshown
      have hchild : p.Refers id tree.label.id := by
        rw [Refers, ← hchildren]
        exact List.mem_map_of_mem htree
      exact .head hchild (ih tree htree shown hshown)

theorem children_shown (h : p.Unfolds tree) {id child : PatternId} (hid : .entry id ∈ tree.labels)
    (hchild : p.Refers id child) : ∃ shown ∈ tree.labels, shown.id = child := by
  induction h with
  | again id =>
    cases List.mem_singleton.mp hid
  | @entry id' trees hchildren _ ih =>
    rcases List.mem_cons.mp hid with heq | hid
    · cases heq
      rw [Refers, ← hchildren] at hchild
      obtain ⟨tree, htree, rfl⟩ := List.mem_map.mp hchild
      refine ⟨tree.label, List.mem_cons_of_mem _ ?_, rfl⟩
      exact mem_forestLabels_iff.mpr ⟨tree, htree, tree.label_mem_labels⟩
    · obtain ⟨tree, htree, hid⟩ := mem_forestLabels_iff.mp hid
      obtain ⟨shown, hshown, hid⟩ := ih tree htree hid
      exact ⟨shown, List.mem_cons_of_mem _ (mem_forestLabels_iff.mpr ⟨tree, htree, hshown⟩), hid⟩

end Unfolds

/-! ### Drawing an entry -/

/-- The trees of some entries, drawn when some entries are known, and what is known after that. -/
structure Draws (p : Pattern) (known : Std.ExtTreeSet PatternId) (ids : List PatternId)
    (trees : List (Text.Tree Shown)) (known' : Std.ExtTreeSet PatternId) : Prop where
  ids : trees.map (fun tree => tree.label.id) = ids
  orderly : Orderly (· ∈ known) (Text.Tree.forestLabels trees)
  known_iff : ∀ id, id ∈ known' ↔ id ∈ known ∨ ∃ shown ∈ Text.Tree.forestLabels trees, shown.id = id
  unfolds : ∀ tree ∈ trees, p.Unfolds tree

theorem Draws.append {known known₁ known' : Std.ExtTreeSet PatternId} {ids ids' : List PatternId}
    {trees trees' : List (Text.Tree Shown)} (h : p.Draws known ids trees known₁)
    (h' : p.Draws known₁ ids' trees' known') :
    p.Draws known (ids ++ ids') (trees ++ trees') known' where
  ids := by rw [List.map_append, h.ids, h'.ids]
  orderly := by
    rw [Text.Tree.forestLabels_append]
    apply h.orderly.append
    simpa only [h.known_iff] using h'.orderly
  known_iff id := by
    simp only [h'.known_iff, h.known_iff, Text.Tree.forestLabels_append, List.mem_append,
      or_and_right, exists_or, or_assoc]
  unfolds := List.forall_mem_append.mpr ⟨h.unfolds, h'.unfolds⟩

theorem draws_forest {compactAt : PatternId → Std.ExtTreeSet PatternId →
      Except Fault (Text.Tree Shown × Std.ExtTreeSet PatternId)}
    (hat : ∀ id known tree known', compactAt id known = .ok (tree, known') →
      p.Draws known [id] [tree] known') {ids : List PatternId}
    {known known' : Std.ExtTreeSet PatternId} {trees : List (Text.Tree Shown)}
    (hrun : compactForest compactAt ids known = .ok (trees, known')) :
    p.Draws known ids trees known' := by
  induction ids generalizing known trees with
  | nil =>
    cases hrun
    exact ⟨rfl, trivial, by simp [Text.Tree.forestLabels], nofun⟩
  | cons id rest ih =>
    rw [compactForest, bind_eq_ok_iff] at hrun
    obtain ⟨⟨tree, known₁⟩, htree, hrun⟩ := hrun
    obtain ⟨⟨others, known₂⟩, hothers, hrun⟩ := bind_eq_ok_iff.mp hrun
    cases hrun
    exact (hat id known tree known₁ htree).append (ih hothers)

theorem Draws.singleton {known known' : Std.ExtTreeSet PatternId} {shown : Shown}
    {trees : List (Text.Tree Shown)} (hshown : shown = .entry shown.id ↔ shown.id ∉ known)
    (horderly : Orderly (fun id => id ∈ known ∨ id = shown.id) (Text.Tree.forestLabels trees))
    (hknown : ∀ id, id ∈ known' ↔
      (id ∈ known ∨ id = shown.id) ∨ ∃ other ∈ Text.Tree.forestLabels trees, other.id = id)
    (hunfolds : p.Unfolds (.node shown trees)) :
    p.Draws known [shown.id] [.node shown trees] known' where
  ids := rfl
  orderly := by
    rw [Text.Tree.forestLabels, Text.Tree.forestLabels, List.append_nil]
    exact ⟨hshown, horderly⟩
  known_iff id := by
    rw [hknown, or_assoc, @eq_comm _ id]
    simp [Text.Tree.forestLabels, Text.Tree.labels]
  unfolds := List.forall_mem_singleton.mpr hunfolds

theorem draws_at (fuel : Nat) {id : PatternId} {known known' : Std.ExtTreeSet PatternId}
    {tree : Text.Tree Shown} (hrun : p.compactAt fuel id known = .ok (tree, known')) :
    p.Draws known [id] [tree] known' := by
  induction fuel generalizing id known tree known' with
  | zero => cases hrun
  | succ fuel ih =>
    rw [compactAt] at hrun
    split at hrun
    · next hknown =>
      cases hrun
      have hagain : Shown.again id = .entry id ↔ id ∉ known :=
        iff_of_false (by simp) (not_not.mpr hknown)
      refine .singleton hagain trivial (fun k => ?_) (.again id)
      simp only [Text.Tree.forestLabels, List.not_mem_nil, false_and, exists_false, or_false]
      exact (or_iff_left_of_imp fun hk => hk ▸ hknown).symm
    · next hnew =>
      rw [bind_eq_ok_iff] at hrun
      obtain ⟨kind, hkind, hrun⟩ := hrun
      obtain ⟨⟨trees, known₁⟩, htrees, hrun⟩ := bind_eq_ok_iff.mp hrun
      cases hrun
      have hforest := draws_forest (fun _ _ _ _ => ih) htrees
      have hinsert : ∀ k, k ∈ known.insert id ↔ k ∈ known ∨ k = id := by
        intro k
        rw [Std.ExtTreeSet.mem_insert, Std.compare_eq_iff_eq, or_comm, eq_comm]
      refine .singleton (iff_of_true rfl hnew) ?_ (fun k => ?_) (.entry ?_ hforest.unfolds)
      · simpa only [hinsert, Shown.id] using hforest.orderly
      · rw [hforest.known_iff, hinsert]
        rfl
      · rw [hforest.ids, childrenAt, kind_eq_ok_iff.mp hkind]

/-! ### The text of a line -/

inductive Words : PatternKind → String → Prop where
  | wildcard : Words .wildcard "WILDCARD"
  | constant : Words .constant "CONSTANT"
  | graphInput : Words .graphInput "GRAPH_INPUT"
  | node {key : OpKey} {operands : List PatternId} {optional : List Bool}
    {attrs : List (String × Attr)} (hrequired : true ∉ optional) :
    Words (.node key operands optional attrs)
      ("NODE(" ++ key.text ++ ")" ++
        String.join (attrs.map fun attr => " " ++ attr.1 ++ "=" ++ attr.2.text))
  | nodeOptional {key : OpKey} {operands : List PatternId} {optional : List Bool}
    {attrs : List (String × Attr)} (hoptional : true ∈ optional) :
    Words (.node key operands optional attrs)
      ("NODE(" ++ key.text ++ ")" ++
        (" optional=" ++
          Text.bracketed (optional.map fun flag => if flag then "true" else "false")) ++
        String.join (attrs.map fun attr => " " ++ attr.1 ++ "=" ++ attr.2.text))
  | commutable (key : OpKey) (lhs rhs : PatternId) :
    Words (.commutable key lhs rhs) ("COMMUTABLE(" ++ key.text ++ ")")
  | anyOf (items : List PatternId) : Words (.anyOf items) "OR"
  | allOf (items : List PatternId) : Words (.allOf items) "SEQUENCE"

theorem words_kindText (kind : PatternKind) : Words kind (kindText kind) := by
  cases kind with
  | wildcard => exact .wildcard
  | constant => exact .constant
  | graphInput => exact .graphInput
  | node key operands optional attrs =>
    by_cases hoptional : true ∈ optional
    · have hany : optional.any (· == true) = true := by simpa using hoptional
      rw [kindText, if_pos hany]
      exact .nodeOptional hoptional
    · have hany : ¬ optional.any (· == true) = true := by simpa using hoptional
      rw [kindText, if_neg hany, String.append_empty]
      exact .node hoptional
  | commutable key lhs rhs => exact .commutable key lhs rhs
  | anyOf items => exact .anyOf items
  | allOf items => exact .allOf items

/-- The line of an item, without what is drawn in front of it. -/
inductive Captions (p : Pattern) : Shown → String → Prop where
  | again (id : PatternId) :
    Captions p (.again id) ("[p" ++ toString id.index ++ "] → (see above)")
  | entry {id : PatternId} {kind : PatternKind} {words : String}
    (hkind : p.kinds[id.index]? = some kind) (hwords : Words kind words)
    (hname : p.name? id = none) :
    Captions p (.entry id) ("[p" ++ toString id.index ++ "] " ++ words)
  | named {id : PatternId} {kind : PatternKind} {words name : String}
    (hkind : p.kinds[id.index]? = some kind) (hwords : Words kind words)
    (hname : p.name? id = some name) :
    Captions p (.entry id) ("[p" ++ toString id.index ++ "] " ++ words ++ " '" ++ name ++ "'")

theorem bracket_text (id : PatternId) : "[" ++ id.text = "[p" ++ toString id.index := by
  rw [Handle.text, ← String.append_assoc]
  rfl

theorem captions_shownText {shown : Shown} (hshown : shown.id.index < p.size) :
    p.Captions shown (p.shownText shown) := by
  cases shown with
  | again id =>
    rw [shownText, bracket_text]
    exact .again id
  | entry id =>
    have hkind : p.kinds[id.index]? = some p.kinds[id.index] := Array.getElem?_eq_getElem hshown
    have hwords : Words p.kinds[id.index] (kindText p.kinds[id.index]) := words_kindText _
    rw [shownText, hkind, bracket_text]
    cases hname : p.name? id with
    | none =>
      dsimp only
      rw [String.append_empty]
      exact .entry hkind hwords hname
    | some name =>
      dsimp only
      rw [← String.append_assoc, ← String.append_assoc]
      exact .named hkind hwords hname

/-! ### The whole drawing -/

theorem nodup_reachable (p : Pattern) : p.reachable.Nodup :=
  Handle.nodup_toList _

theorem sum_fanOut (p : Pattern) (items : List Shown) : (items.map p.fanOut).sum =
    ((items.filterMap Shown.entry?).map fun id => (p.childrenAt id.index).length).sum := by
  induction items with
  | nil => rfl
  | cons shown rest ih =>
    cases shown with
    | entry id => simp [Shown.entry?, fanOut, ih]
    | again id =>
      rw [List.filterMap_cons_none rfl, List.map_cons, List.sum_cons, fanOut, Nat.zero_add, ih]

theorem count_entry (id : PatternId) (items : List Shown) :
    items.count (.entry id) = (items.filterMap Shown.entry?).count id := by
  induction items with
  | nil => rfl
  | cons shown rest ih =>
    cases shown with
    | entry k => simp [Shown.entry?, List.count_cons, ih]
    | again k =>
      have hne : Shown.again k ≠ .entry id := nofun
      rw [List.filterMap_cons_none rfl, List.count_cons_of_ne hne, ih]

theorem perm_reachable (hp : p.WellFormed) {tree : Text.Tree Shown} (hroot : tree.label.id = p.root)
    (horderly : Orderly (fun _ => False) tree.labels) (hunfolds : p.Unfolds tree) :
    (tree.labels.filterMap Shown.entry?).Perm p.reachable := by
  obtain ⟨hnodup, hmem⟩ := horderly.expanded
  simp only [not_false_eq_true, true_and] at hmem
  refine (List.perm_ext_iff_of_nodup hnodup p.nodup_reachable).mpr fun id => ?_
  rw [hmem, mem_reachable_iff hp]
  constructor
  · rintro ⟨shown, hshown, rfl⟩
    exact hroot ▸ hunfolds.reaches shown hshown
  · intro hpath
    induction hpath with
    | refl => exact ⟨tree.label, tree.label_mem_labels, hroot⟩
    | @tail k child _ hchild ih =>
      -- What is shown at all is expanded somewhere, and there its children are shown.
      obtain ⟨shown, hshown, hentry⟩ := List.mem_filterMap.mp ((hmem k).mpr ih)
      have hshown : .entry k ∈ tree.labels := by
        cases shown <;> cases hentry
        exact hshown
      exact hunfolds.children_shown hshown hchild

structure ExpandsOnce (p : Pattern) (tree : Text.Tree Shown) : Prop where
  root : tree.label = .entry p.root
  /-- There is an item for the root and one for every child of a reachable entry. -/
  count : tree.labels.length =
    1 + (p.reachable.map fun id => (p.childrenAt id.index).length).sum
  once : ∀ id, tree.labels.count (.entry id) = if id ∈ p.reachable then 1 else 0
  /-- An item expands its entry iff no item before it stands for the entry. -/
  first : ∀ (i : Nat) shown, tree.labels[i]? = some shown → (shown = .entry shown.id ↔
    ∀ j < i, ∀ other, tree.labels[j]? = some other → other.id ≠ shown.id)
  unfolds : p.Unfolds tree

theorem Draws.expandsOnce (hp : p.WellFormed) {tree : Text.Tree Shown}
    {known : Std.ExtTreeSet PatternId} (h : p.Draws ∅ [p.root] [tree] known) :
    p.ExpandsOnce tree := by
  have hroot : tree.label.id = p.root := by simpa using h.ids
  have hunfolds : p.Unfolds tree := h.unfolds tree List.mem_cons_self
  have horderly : Orderly (fun _ => False) tree.labels := by
    simpa [Text.Tree.forestLabels] using h.orderly
  have hperm := perm_reachable hp hroot horderly hunfolds
  have hfirst : ∀ (i : Nat) shown, tree.labels[i]? = some shown → (shown = .entry shown.id ↔
      ∀ j < i, ∀ other, tree.labels[j]? = some other → other.id ≠ shown.id) := by
    intro i shown hshown
    rw [horderly.entry_iff hshown, and_iff_right not_false]
  refine ⟨?_, ?_, fun id => ?_, hfirst, hunfolds⟩
  · rw [← hroot]
    have hhead : tree.labels[0]? = some tree.label := by cases tree; rfl
    exact (hfirst 0 tree.label hhead).mpr nofun
  · rw [hunfolds.length_labels, sum_fanOut, (hperm.map _).sum_eq]
  · rw [count_entry, hperm.count_eq, p.nodup_reachable.count]

/--
The compact drawing of a pattern has a line for the root and one for every child of a reachable
entry. Every reachable entry is expanded once, where it comes first, and is a reference without
children wherever it comes again. Its line is `[p2] NODE(Mul)`, say, and then
`[p2] → (see above)`.
-/
theorem compactTree_expands_once (hp : p.Obtained) :
    ∃ (tree : Text.Tree Shown) (indents captions : List String),
    p.compactTree = .ok tree ∧ p.ExpandsOnce tree ∧ indents.length = tree.labels.length ∧
      List.Forall₂ p.Captions tree.labels captions ∧
      p.drawCompact = .ok (String.join (List.zipWith
        (fun indent caption => indent ++ caption ++ "\n") indents captions)) := by
  obtain ⟨tree, htree, hbelow, hdraw⟩ := hp.valid.traversable.drawCompact
  obtain ⟨⟨tree, known⟩, hrun, rfl⟩ := map_eq_ok_iff.mp htree
  obtain ⟨indents, hlength, hlines⟩ := Text.Tree.exists_drawLines p.shownText "" "" tree
  refine ⟨tree, indents, tree.labels.map p.shownText, htree,
    (draws_at _ hrun).expandsOnce hp.valid.wellFormed, hlength, ?_, ?_⟩
  · rw [List.forall₂_map_right_iff, List.forall₂_same]
    exact fun shown hshown => captions_shownText (hbelow shown hshown)
  · rw [hdraw, Text.Tree.draw, hlines, List.map_zipWith, List.zipWith_map_right]

/-- A shared square below a sum, and shared once more beside the sum. -/
def nestedCalls : List BuilderCall :=
  [.wildcard, .node (.standard "Relu") [(⟨0⟩, false)] [],
    .node (.standard "Mul") [(⟨1⟩, false), (⟨1⟩, true)] [], .named ⟨2⟩ "square",
    .commutable (.standard "Add") ⟨2⟩ ⟨1⟩, .anyOf [⟨3⟩, ⟨2⟩]]

def nestedItems : List Shown :=
  [.entry ⟨4⟩, .entry ⟨3⟩, .entry ⟨2⟩, .entry ⟨1⟩, .entry ⟨0⟩, .again ⟨1⟩, .again ⟨1⟩, .again ⟨2⟩]

def nestedDrawing : String :=
  "[p4] OR\n" ++
  "├─ [p3] COMMUTABLE(Add)\n" ++
  "│  ├─ [p2] NODE(Mul) optional=[false, true] 'square'\n" ++
  "│  │  ├─ [p1] NODE(Relu)\n" ++
  "│  │  │  └─ [p0] WILDCARD\n" ++
  "│  │  └─ [p1] → (see above)\n" ++
  "│  └─ [p1] → (see above)\n" ++
  "└─ [p2] → (see above)\n"

theorem compactTree_expands_once_nested : ∃ b p tree captions,
    BuilderCall.runAll nestedCalls .empty = .ok b ∧ b.freeze ⟨4⟩ = .ok p ∧
      p.compactTree = .ok tree ∧ p.ExpandsOnce tree ∧ tree.labels = nestedItems ∧
      List.Forall₂ p.Captions tree.labels captions ∧ p.drawCompact = .ok nestedDrawing := by
  have hrun : ∃ b ∈ (BuilderCall.runAll nestedCalls .empty).toOption,
      ∃ p ∈ (b.freeze ⟨4⟩).toOption,
        p.compactTree.toOption.map Text.Tree.labels = some nestedItems ∧
        nestedDrawing ∈ p.drawCompact.toOption := by
    decide +kernel
  obtain ⟨b, hb, p, hp, hlabels, hdrawing⟩ := hrun
  have hb := eq_ok_of_mem_toOption hb
  have hp := eq_ok_of_mem_toOption hp
  obtain ⟨tree, _, captions, htree, honce, -, hcaptions, -⟩ :=
    compactTree_expands_once (.built hb hp)
  rw [htree] at hlabels
  exact ⟨b, p, tree, captions, hb, hp, htree, honce, Option.some.inj hlabels, hcaptions,
    eq_ok_of_mem_toOption hdrawing⟩

end Pattern

end OpGraph
