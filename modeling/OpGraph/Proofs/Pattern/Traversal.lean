import OpGraph.Pattern.Text
import OpGraph.Proofs.Pattern.Accepts

/-!
Traversals of a pattern. Keys, texts, trees and matching go from an entry to its children without
looking where they lead. In a valid table that is safe, and only valid tables are read from blobs:
whatever the bytes are, they are refused or give a pattern that every traversal gets to the end of.
-/

namespace OpGraph

namespace Pattern

variable {p : Pattern}

/--
What holds of an entry as soon as it holds of the children, with one level less, holds of all
entries: the way down is never longer than the part of the table before its start.
-/
theorem Valid.descent (hp : p.Valid) (done : Nat → PatternId → Prop)
    (hstep : ∀ fuel id kind, p.kinds[id.index]? = some kind →
      (∀ child ∈ kind.children, done fuel child) → done (fuel + 1) id)
    {fuel : Nat} {id : PatternId} (hfuel : id.index < fuel) (hid : id.index < p.size) :
    done fuel id := by
  induction fuel generalizing id with
  | zero => omega
  | succ fuel ih =>
    have hkind : p.kinds[id.index]? = some p.kinds[id.index] := Array.getElem?_eq_getElem hid
    apply hstep fuel id _ hkind
    intro child hchild
    have hlt : child.index < id.index := hp.wellFormed.child_lt hkind hchild
    exact ih (by omega) (by omega)

/-! ### Keys -/

section Keys

variable {keysAt : PatternId → Except Fault (Option (List OpKey))} {items : List PatternId}

theorem alternativeKeys_succeeds (h : ∀ item ∈ items, ∃ keys, keysAt item = .ok keys)
    (keys : List OpKey) : ∃ keys', alternativeKeys keysAt items keys = .ok keys' := by
  induction items generalizing keys with
  | nil => exact ⟨some keys, rfl⟩
  | cons item rest ih =>
    rw [List.forall_mem_cons] at h
    obtain ⟨found, hfound⟩ := h.1
    rw [alternativeKeys, hfound, ok_bind]
    cases found with
    | none => exact ⟨none, rfl⟩
    | some more => exact ih h.2 (joinKeys keys more)

theorem firstKeys_succeeds (h : ∀ item ∈ items, ∃ keys, keysAt item = .ok keys) :
    ∃ keys, firstKeys keysAt items = .ok keys := by
  induction items with
  | nil => exact ⟨none, rfl⟩
  | cons item rest ih =>
    rw [List.forall_mem_cons] at h
    obtain ⟨found, hfound⟩ := h.1
    rw [firstKeys, hfound, ok_bind]
    cases found with
    | some keys => exact ⟨some keys, rfl⟩
    | none => exact ih h.2

end Keys

theorem keysAt_succeeds (hp : p.Valid) {fuel : Nat} {id : PatternId} (hfuel : id.index < fuel)
    (hid : id.index < p.size) : ∃ keys, p.keysAt fuel id = .ok keys := by
  refine hp.descent (fun fuel id => ∃ keys, p.keysAt fuel id = .ok keys) ?_ hfuel hid
  intro fuel id kind hkind ih
  rw [keysAt, kind_eq_ok_iff.mpr hkind, ok_bind]
  cases kind with
  | anyOf items => exact alternativeKeys_succeeds ih []
  | allOf items => exact firstKeys_succeeds ih
  | _ => exact ⟨_, rfl⟩

theorem rootKeys_succeeds (hp : p.Valid) : ∃ keys, p.rootKeys = .ok keys :=
  keysAt_succeeds hp (Nat.lt_succ_self _) hp.root_lt

/-! ### Texts -/

theorem operandTexts_succeeds {textAt : PatternId → Except Fault String} {optional : List Bool}
    {xs : List (PatternId × Nat)}
    (h : ∀ x ∈ xs, (∃ text, textAt x.1 = .ok text) ∧ x.2 < optional.length) :
    ∃ texts, operandTexts textAt optional xs = .ok texts := by
  induction xs with
  | nil => exact ⟨[], rfl⟩
  | cons x rest ih =>
    obtain ⟨operand, slot⟩ := x
    rw [List.forall_mem_cons] at h
    obtain ⟨⟨text, htext⟩, hslot⟩ := h.1
    obtain ⟨texts, htexts⟩ := ih h.2
    rw [operandTexts, htext, ok_bind, List.getElem?_eq_getElem hslot]
    simp only [htexts, ok_bind]
    exact ⟨_, rfl⟩

theorem textAt_succeeds (hp : p.Valid) {fuel : Nat} {id : PatternId} (hfuel : id.index < fuel)
    (hid : id.index < p.size) : ∃ text, p.textAt fuel id = .ok text := by
  refine hp.descent (fun fuel id => ∃ text, p.textAt fuel id = .ok text) ?_ hfuel hid
  intro fuel id kind hkind ih
  rw [textAt, kind_eq_ok_iff.mpr hkind, ok_bind]
  cases kind with
  | node key operands optional attrs =>
    have hflags : operands.length = optional.length := (hp.kinds_proper id _ hkind).balanced.1
    obtain ⟨texts, htexts⟩ : ∃ texts,
        operandTexts (p.textAt fuel) optional operands.zipIdx = .ok texts := by
      apply operandTexts_succeeds
      intro x hx
      have hget : operands[x.2]? = some x.1 := List.mem_zipIdx_iff_getElem?.mp hx
      obtain ⟨hlt, -⟩ := List.getElem?_eq_some_iff.mp hget
      exact ⟨ih x.1 (List.mem_of_getElem? hget), hflags ▸ hlt⟩
    simp only [htexts, ok_bind]
    exact ⟨_, rfl⟩
  | commutable key lhs rhs =>
    obtain ⟨first, hfirst⟩ := ih lhs (by simp [PatternKind.children])
    obtain ⟨second, hsecond⟩ := ih rhs (by simp [PatternKind.children])
    simp only [hfirst, hsecond, ok_bind]
    exact ⟨_, rfl⟩
  | anyOf items | allOf items =>
    obtain ⟨texts, htexts⟩ := mapM_succeeds ih
    simp only [PatternKind.children] at htexts
    simp only [htexts, ok_bind]
    exact ⟨_, rfl⟩
  | _ => exact ⟨_, rfl⟩

/-! ### Trees -/

def Shown.id : Shown → PatternId
  | entry id | again id => id

def ShownBelow (n : Nat) (tree : Text.Tree Shown) : Prop :=
  ∀ shown ∈ tree.labels, shown.id.index < n

theorem ShownBelow.mono {m n : Nat} (h : m ≤ n) {tree : Text.Tree Shown} (ht : ShownBelow m tree) :
    ShownBelow n tree :=
  fun shown hshown => Nat.lt_of_lt_of_le (ht shown hshown) h

theorem mem_forestLabels_iff {shown : Shown} {trees : List (Text.Tree Shown)} :
    shown ∈ Text.Tree.forestLabels trees ↔ ∃ tree ∈ trees, shown ∈ tree.labels := by
  induction trees with
  | nil => simp [Text.Tree.forestLabels]
  | cons tree rest ih => simp [Text.Tree.forestLabels, ih]

theorem shownBelow_node {id : PatternId} {trees : List (Text.Tree Shown)}
    (h : ∀ tree ∈ trees, ShownBelow id.index tree) :
    ShownBelow (id.index + 1) (.node (.entry id) trees) := by
  intro shown hshown
  rw [Text.Tree.labels, List.mem_cons] at hshown
  rcases hshown with rfl | hshown
  · exact Nat.lt_succ_self _
  · obtain ⟨tree, htree, hshown⟩ := mem_forestLabels_iff.mp hshown
    exact Nat.lt_succ_of_lt (h tree htree shown hshown)

def CompactBelow (compactAt : PatternId → Std.ExtTreeSet PatternId →
    Except Fault (Text.Tree Shown × Std.ExtTreeSet PatternId)) (n : Nat) (id : PatternId) : Prop :=
  ∀ seen, ∃ tree seen', compactAt id seen = .ok (tree, seen') ∧ ShownBelow n tree

theorem compactForest_succeeds {compactAt : PatternId → Std.ExtTreeSet PatternId →
      Except Fault (Text.Tree Shown × Std.ExtTreeSet PatternId)} {n : Nat} {ids : List PatternId}
    (h : ∀ id ∈ ids, CompactBelow compactAt n id) (seen : Std.ExtTreeSet PatternId) :
    ∃ trees seen', compactForest compactAt ids seen = .ok (trees, seen') ∧
      ∀ tree ∈ trees, ShownBelow n tree := by
  induction ids generalizing seen with
  | nil => exact ⟨[], seen, rfl, by simp⟩
  | cons id rest ih =>
    rw [List.forall_mem_cons] at h
    obtain ⟨tree, seen₁, htree, hbelow⟩ := h.1 seen
    obtain ⟨trees, seen₂, htrees, hrest⟩ := ih h.2 seen₁
    refine ⟨tree :: trees, seen₂, ?_, List.forall_mem_cons.mpr ⟨hbelow, hrest⟩⟩
    simp only [compactForest, htree, htrees, ok_bind]
    rfl

theorem compactAt_succeeds (hp : p.Valid) {fuel : Nat} {id : PatternId} (hfuel : id.index < fuel)
    (hid : id.index < p.size) : CompactBelow (p.compactAt fuel) (id.index + 1) id := by
  refine hp.descent (fun fuel id => CompactBelow (p.compactAt fuel) (id.index + 1) id)
    ?_ hfuel hid
  intro fuel id kind hkind ih seen
  by_cases hseen : id ∈ seen
  · refine ⟨.node (.again id) [], seen, by rw [compactAt, if_pos hseen], ?_⟩
    intro shown hshown
    simp only [Text.Tree.labels, Text.Tree.forestLabels, List.mem_singleton] at hshown
    exact hshown ▸ Nat.lt_succ_self _
  · have hchildren : ∀ child ∈ kind.children, CompactBelow (p.compactAt fuel) id.index child := by
      intro child hchild seen
      have hlt : child.index < id.index := hp.wellFormed.child_lt hkind hchild
      obtain ⟨tree, seen', htree, hbelow⟩ := ih child hchild seen
      exact ⟨tree, seen', htree, hbelow.mono hlt⟩
    obtain ⟨trees, seen', htrees, hbelow⟩ := compactForest_succeeds hchildren (seen.insert id)
    refine ⟨.node (.entry id) trees, seen', ?_, shownBelow_node hbelow⟩
    rw [compactAt, if_neg hseen, kind_eq_ok_iff.mpr hkind, ok_bind, htrees]
    rfl

theorem fullAt_succeeds (hp : p.Valid) {fuel : Nat} {id : PatternId} (hfuel : id.index < fuel)
    (hid : id.index < p.size) :
    ∃ tree, p.fullAt fuel id = .ok tree ∧ ShownBelow (id.index + 1) tree := by
  refine hp.descent
    (fun fuel id => ∃ tree, p.fullAt fuel id = .ok tree ∧ ShownBelow (id.index + 1) tree)
    ?_ hfuel hid
  intro fuel id kind hkind ih
  obtain ⟨trees, htrees, hbelow⟩ : ∃ trees, kind.children.mapM (p.fullAt fuel) = .ok trees ∧
      ∀ tree ∈ trees, ShownBelow id.index tree := by
    apply mapM_succeeds_with
    intro child hchild
    have hlt : child.index < id.index := hp.wellFormed.child_lt hkind hchild
    obtain ⟨tree, htree, hbelow⟩ := ih child hchild
    exact ⟨tree, htree, hbelow.mono hlt⟩
  refine ⟨.node (.entry id) trees, ?_, shownBelow_node hbelow⟩
  rw [fullAt, kind_eq_ok_iff.mpr hkind, ok_bind, htrees]
  rfl

/-! ### Reading -/

/-- Every traversal ends, and no drawing has an item from outside the table. -/
structure Traversable (p : Pattern) : Prop where
  matchArg : ∀ g : Graph, g.Indexed → ∀ arg, ∃ outcome, p.matchArg g arg = .ok outcome
  rootKeys : ∃ keys, p.rootKeys = .ok keys
  text : ∃ text, p.text = .ok text
  drawCompact : ∃ tree, p.compactTree = .ok tree ∧ ShownBelow p.size tree ∧
    p.drawCompact = .ok (tree.draw p.shownText)
  drawFull : ∃ tree, p.fullTree = .ok tree ∧ ShownBelow p.size tree ∧
    p.drawFull = .ok (tree.draw p.shownText)

theorem Valid.traversable (hp : p.Valid) : p.Traversable where
  matchArg g hg arg := by
    obtain ⟨outcome, hrun, -⟩ := matchArg_settled hg hp arg
    exact ⟨outcome, hrun⟩
  rootKeys := rootKeys_succeeds hp
  text := textAt_succeeds hp (Nat.lt_succ_self _) hp.root_lt
  drawCompact := by
    obtain ⟨tree, seen, hrun, hbelow⟩ := compactAt_succeeds hp (Nat.lt_succ_self _) hp.root_lt ∅
    have htree : p.compactTree = .ok tree := by
      rw [compactTree, hrun]
      rfl
    refine ⟨tree, htree, hbelow.mono hp.root_lt, ?_⟩
    rw [Pattern.drawCompact, htree]
    rfl
  drawFull := by
    obtain ⟨tree, hrun, hbelow⟩ := fullAt_succeeds hp (Nat.lt_succ_self _) hp.root_lt
    refine ⟨tree, hrun, hbelow.mono hp.root_lt, ?_⟩
    rw [Pattern.drawFull, fullTree, hrun]
    rfl

end Pattern

namespace PatternBlob

/-- The blob is one of ours and has no flaw. -/
structure Readable (b : PatternBlob) : Prop extends b.Sound where
  format_eq : b.format = formatName
  version_eq : b.version = formatVersion

structure Describes (b : PatternBlob) (p : Pattern) : Prop where
  kinds : p.kinds = b.kinds.toArray
  root : p.root = b.root
  names : ∀ id name, p.name? id = some name ↔ (id, name) ∈ b.names

theorem Sound.describes {b : PatternBlob} (hb : b.Sound) : b.Describes b.toPattern where
  kinds := rfl
  root := rfl
  names id name := by
    rw [Pattern.name?, Option.join_eq_some_iff]
    constructor
    · exact mem_names_of_getElem? hb
    · intro hmem
      exact getElem?_foldl_place_of_mem hb.names_apart hmem
        (by simpa using hb.names_inside _ hmem)

end PatternBlob

namespace Pattern

theorem ofBytes_eq_ok_iff {bytes : Bytes} {p : Pattern} : ofBytes bytes = .ok p ↔
    ∃ b, PatternBlob.ofBytes? bytes = some b ∧ b.Readable ∧ p = b.toPattern := by
  constructor
  · intro h
    obtain ⟨b, hb, hsound, rfl⟩ := ofBytes_eq_ok h
    simp only [ofBytes, hb] at h
    split at h
    · cases h
    · next hformat =>
      split at h
      · cases h
      · next hversion =>
        exact ⟨b, hb, ⟨hsound, not_not.mp hformat, not_not.mp hversion⟩, rfl⟩
  · rintro ⟨b, hb, hreadable, rfl⟩
    have hflaw : b.flaw? = none := PatternBlob.flaw?_eq_none_iff.mpr hreadable.toSound
    simp [ofBytes, hb, hflaw, hreadable.format_eq, hreadable.version_eq]

/--
Any bytes are refused, because they hold no readable blob, or they give a pattern that holds what
the blob holds, with a valid table, and that every traversal gets to the end of.
-/
theorem refused_or_traversable (bytes : Bytes) :
    (∃ e, ofBytes bytes = .error e) ∧
        (∀ b, PatternBlob.ofBytes? bytes = some b → ¬ b.Readable) ∨
      ∃ b p, PatternBlob.ofBytes? bytes = some b ∧ b.Readable ∧ ofBytes bytes = .ok p ∧
        b.Describes p ∧ p.Valid ∧ p.Traversable := by
  cases h : ofBytes bytes with
  | error e =>
    refine .inl ⟨⟨e, rfl⟩, ?_⟩
    intro b hb hreadable
    rw [ofBytes_eq_ok_iff.mpr ⟨b, hb, hreadable, rfl⟩] at h
    cases h
  | ok p =>
    obtain ⟨b, hb, hreadable, rfl⟩ := ofBytes_eq_ok_iff.mp h
    have hvalid : b.toPattern.Valid := hreadable.toSound.valid_toPattern
    exact .inr ⟨b, _, hb, hreadable, rfl, hreadable.toSound.describes, hvalid, hvalid.traversable⟩

end Pattern

end OpGraph
