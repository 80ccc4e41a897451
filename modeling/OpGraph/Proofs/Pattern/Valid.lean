import Mathlib.Data.List.Pairwise
import OpGraph.Pattern.Blob
import OpGraph.Pattern.Builder
import OpGraph.Proofs.Pattern.Match

/-!
The patterns that there are. A pattern comes out of a builder or was read from a blob, and either
way its table is valid: what an entry refers to stands before it, and no name is given twice.
-/

namespace OpGraph

namespace PatternKind

def Balanced : PatternKind → Prop
  | node _ operands optional attrs =>
    operands.length = optional.length ∧ attrs.Pairwise fun x y => x.1 < y.1
  | anyOf items | allOf items => items ≠ []
  | wildcard | constant | graphInput | commutable .. => True

structure Proper (kind : PatternKind) (id : PatternId) : Prop where
  children_lt : ∀ child ∈ kind.children, child.index < id.index
  balanced : kind.Balanced

end PatternKind

namespace Pattern

/-- The table of a pattern that can be matched and stored. -/
structure Valid (p : Pattern) : Prop where
  root_lt : p.root.index < p.size
  names_size : p.names.size = p.size
  kinds_proper : ∀ (id : PatternId) (kind : PatternKind), p.kinds[id.index]? = some kind →
    kind.Proper id
  names_unique : ∀ (i j : Nat) name, p.names[i]? = some (some name) →
    p.names[j]? = some (some name) → i = j

theorem Valid.wellFormed {p : Pattern} (hp : p.Valid) : p.WellFormed := by
  intro i hi child hchild
  obtain ⟨kind, hkind⟩ : ∃ kind, p.kinds[i]? = some kind := ⟨_, Array.getElem?_eq_getElem hi⟩
  rw [childrenAt, hkind] at hchild
  exact (hp.kinds_proper ⟨i⟩ kind hkind).children_lt child hchild

end Pattern

/-! ### Reading -/

namespace PatternBlob

theorem isSorted_iff (attrs : List (String × Attr)) :
    isSorted attrs = true ↔ attrs.Pairwise fun x y => x.1 < y.1 := by
  fun_induction isSorted attrs with
  | case1 a x b y rest ih =>
    rw [Bool.and_eq_true, decide_eq_true_eq, ih, List.pairwise_cons (a := (a, x))]
    refine and_congr_left fun hrest => ?_
    constructor
    · intro hab z hz
      rcases List.mem_cons.mp hz with rfl | hz
      · exact hab
      · exact String.lt_trans hab ((List.pairwise_cons.mp hrest).1 z hz)
    · intro hall
      exact hall (b, y) List.mem_cons_self
  | case2 attrs hshort =>
    match attrs, hshort with
    | [], _ => simp
    | [x], _ => simp
    | (a, x) :: (b, y) :: rest, hshort => exact (hshort a x b y rest rfl).elim

theorem kindFlaw?_eq_none_iff {id : PatternId} {kind : PatternKind} :
    kindFlaw? id kind = none ↔ kind.Proper id := by
  have hchildren : (kind.children.find? fun child => id.index ≤ child.index) = none ↔
      ∀ child ∈ kind.children, child.index < id.index := by
    simp
  unfold kindFlaw?
  split
  · next child hfind =>
    refine iff_of_false (by simp) fun hproper => ?_
    rw [hchildren.mpr hproper.children_lt] at hfind
    cases hfind
  · next hfind =>
    have hbefore := hchildren.mp hfind
    have hbalanced : kind.Proper id ↔ kind.Balanced :=
      ⟨fun hproper => hproper.balanced, fun h => ⟨hbefore, h⟩⟩
    rw [hbalanced]
    split
    · next key operands optional attrs =>
      have hsorted := isSorted_iff attrs
      simp only [PatternKind.Balanced]
      grind
    · simp [PatternKind.Balanced]
    · simp [PatternKind.Balanced]
    · next hnode hany hall =>
      refine iff_of_true rfl ?_
      cases kind with
      | node key operands optional attrs => exact (hnode key operands optional attrs rfl).elim
      | anyOf items => exact fun hnil => hany (congrArg _ hnil)
      | allOf items => exact fun hnil => hall (congrArg _ hnil)
      | _ => trivial

def NamesApart (x y : PatternId × String) : Prop :=
  x.1 ≠ y.1 ∧ x.2 ≠ y.2

instance : Std.Symm NamesApart where
  symm _ _ h := ⟨h.1.symm, h.2.symm⟩

theorem nameFlaw?_eq_none_iff {size : Nat} {seen names : List (PatternId × String)} :
    nameFlaw? size seen names = none ↔
      (∀ x ∈ names, x.1.index < size ∧ ∀ y ∈ seen, NamesApart y x) ∧
        names.Pairwise NamesApart := by
  fun_induction nameFlaw? size seen names with
  | case1 => simp
  | case2 seen id name rest hsize =>
    refine iff_of_false (by simp) fun h => ?_
    exact absurd (h.1 (id, name) List.mem_cons_self).1 (Nat.not_lt.mpr hsize)
  | case3 seen id name rest hsize hany =>
    simp only [List.any_eq_true, Prod.exists, Bool.or_eq_true, beq_iff_eq] at hany
    obtain ⟨i, n, hseen, hsame⟩ := hany
    refine iff_of_false (by simp) fun h => ?_
    have hapart := (h.1 (id, name) List.mem_cons_self).2 (i, n) hseen
    exact hsame.elim hapart.1 hapart.2
  | case4 seen id name rest hsize hany ih =>
    have hfresh : ∀ y ∈ seen, NamesApart y (id, name) := by
      intro y hy
      simp only [List.any_eq_true, Bool.or_eq_true, beq_iff_eq, not_exists, not_and, not_or] at hany
      exact hany y hy
    rw [ih, List.pairwise_cons]
    simp only [List.forall_mem_cons]
    constructor
    · rintro ⟨hrest, hapart⟩
      exact ⟨⟨⟨by omega, hfresh⟩, fun x hx => ⟨(hrest x hx).1, (hrest x hx).2.2⟩⟩,
        fun x hx => (hrest x hx).2.1, hapart⟩
    · rintro ⟨⟨-, hrest⟩, hfirst, hapart⟩
      exact ⟨fun x hx => ⟨(hrest x hx).1, hfirst x hx, (hrest x hx).2⟩, hapart⟩

structure Sound (b : PatternBlob) : Prop where
  root_lt : b.root.index < b.kinds.length
  kinds_proper : ∀ (i : Nat) (kind : PatternKind), b.kinds[i]? = some kind → kind.Proper ⟨i⟩
  names_inside : ∀ x ∈ b.names, x.1.index < b.kinds.length
  names_apart : b.names.Pairwise NamesApart

theorem flaw?_eq_none_iff {b : PatternBlob} : b.flaw? = none ↔ b.Sound := by
  have hkinds : (b.kinds.zipIdx.findSome? fun x => kindFlaw? ⟨x.2⟩ x.1) = none ↔
      ∀ (i : Nat) (kind : PatternKind), b.kinds[i]? = some kind → kind.Proper ⟨i⟩ := by
    simp only [List.findSome?_eq_none_iff, Prod.forall, List.mem_zipIdx_iff_getElem?,
      kindFlaw?_eq_none_iff]
    exact ⟨fun h i kind => h kind i, fun h kind i => h i kind⟩
  have hnames : nameFlaw? b.kinds.length [] b.names = none ↔ _ := nameFlaw?_eq_none_iff
  simp only [flaw?]
  split
  · next hroot => exact iff_of_false (by simp) fun h => absurd h.root_lt (by omega)
  · next hroot =>
    rw [Option.orElse_eq_orElse, Option.orElse_eq_or, Option.or_eq_none_iff]
    refine (and_congr hkinds hnames).trans ?_
    constructor
    · rintro ⟨hproper, hinside, hapart⟩
      exact ⟨by omega, hproper, fun x hx => (hinside x hx).1, hapart⟩
    · intro h
      exact ⟨h.kinds_proper, fun x hx => ⟨h.names_inside x hx, by simp⟩, h.names_apart⟩

/-! A pattern gets the names of its blob one after the other. -/

def place (names : Array (Option String)) (x : PatternId × String) : Array (Option String) :=
  names.setIfInBounds x.1.index (some x.2)

theorem size_foldl_place (xs : List (PatternId × String)) (names : Array (Option String)) :
    (xs.foldl place names).size = names.size := by
  induction xs generalizing names with
  | nil => rfl
  | cons x xs ih => rw [List.foldl_cons, ih, place, Array.size_setIfInBounds]

theorem getElem?_foldl_place_of_not_mem {xs : List (PatternId × String)} {i : Nat}
    (hxs : ∀ x ∈ xs, x.1.index ≠ i) (names : Array (Option String)) :
    (xs.foldl place names)[i]? = names[i]? := by
  induction xs generalizing names with
  | nil => rfl
  | cons x xs ih =>
    rw [List.forall_mem_cons] at hxs
    rw [List.foldl_cons, ih hxs.2, place, Array.getElem?_setIfInBounds_ne hxs.1]

theorem getElem?_foldl_place_of_mem {xs : List (PatternId × String)} (hxs : xs.Pairwise NamesApart)
    {x : PatternId × String} (hx : x ∈ xs) {names : Array (Option String)}
    (hsize : x.1.index < names.size) : (xs.foldl place names)[x.1.index]? = some (some x.2) := by
  induction xs generalizing names with
  | nil => cases hx
  | cons y xs ih =>
    rw [List.pairwise_cons] at hxs
    rw [List.foldl_cons]
    rcases List.mem_cons.mp hx with rfl | hx
    · rw [getElem?_foldl_place_of_not_mem, place, Array.getElem?_setIfInBounds_self_of_lt hsize]
      intro y hy heq
      exact (hxs.1 y hy).1 (congrArg Handle.mk heq).symm
    · exact ih hxs.2 hx (by rwa [place, Array.size_setIfInBounds])

theorem mem_names_of_getElem? {b : PatternBlob} (hb : b.Sound) {i : Nat} {name : String}
    (h : b.toPattern.names[i]? = some (some name)) : (⟨i⟩, name) ∈ b.names := by
  change (b.names.foldl place (Array.replicate b.kinds.length none))[i]? = _ at h
  by_cases hmem : ∃ x ∈ b.names, x.1.index = i
  · obtain ⟨x, hx, rfl⟩ := hmem
    rw [getElem?_foldl_place_of_mem hb.names_apart hx (by simpa using hb.names_inside x hx)] at h
    cases h
    exact hx
  · rw [getElem?_foldl_place_of_not_mem (fun x hx heq => hmem ⟨x, hx, heq⟩),
      Array.getElem?_replicate] at h
    split at h <;> cases h

theorem Sound.valid_toPattern {b : PatternBlob} (hb : b.Sound) : b.toPattern.Valid where
  root_lt := by simpa [toPattern, Pattern.size] using hb.root_lt
  names_size := by
    change (b.names.foldl place _).size = _
    rw [size_foldl_place]
    simp [toPattern, Pattern.size]
  kinds_proper id kind hkind := hb.kinds_proper id.index kind (by simpa [toPattern] using hkind)
  names_unique i j name hi hj := by
    by_contra hne
    have hij : ((⟨i⟩, name) : PatternId × String) ≠ (⟨j⟩, name) := by
      intro heq
      cases heq
      exact hne rfl
    have hapart := hb.names_apart.forall (mem_names_of_getElem? hb hi) (mem_names_of_getElem? hb hj)
    exact (hapart hij).2 rfl

end PatternBlob

namespace Pattern

theorem ofBytes_eq_ok {bytes : Bytes} {p : Pattern} (h : ofBytes bytes = .ok p) :
    ∃ b, PatternBlob.ofBytes? bytes = some b ∧ b.Sound ∧ p = b.toPattern := by
  unfold ofBytes at h
  split at h
  · cases h
  · next b hb =>
    split at h
    · cases h
    split at h
    · cases h
    split at h
    · cases h
    · next hflaw =>
      cases h
      exact ⟨b, hb, PatternBlob.flaw?_eq_none_iff.mp hflaw, rfl⟩

end Pattern

/-! ### Building -/

namespace NodeSketch

open PatternBuilder

theorem foldl_operand (operands : List (PatternId × Bool)) (s : NodeSketch) :
    operands.foldl (fun s operand => s.operand operand.1 operand.2) s =
      { s with
        operands := s.operands ++ operands.map Prod.fst
        optional := s.optional ++ operands.map Prod.snd } := by
  induction operands generalizing s with
  | nil => simp
  | cons operand operands ih =>
    rw [List.foldl_cons, ih]
    simp [NodeSketch.operand]

theorem getElem?_foldl_filter {name k : String} (hk : name ≠ k) (attrs : List (String × Attr))
    {m m' : Attrs} (hm : m[k]? = m'[k]?) :
    ((attrs.filter fun x => x.1 != name).foldl (fun m attr => m.insert attr.1 attr.2) m)[k]? =
      (attrs.foldl (fun m attr => m.insert attr.1 attr.2) m')[k]? := by
  induction attrs generalizing m m' with
  | nil => exact hm
  | cons attr attrs ih =>
    rw [List.foldl_cons]
    by_cases hattr : attr.1 = name
    · rw [List.filter_cons_of_neg (by simp [hattr])]
      apply ih
      rw [hm, Std.ExtTreeMap.getElem?_insert, if_neg (by simpa [hattr] using hk)]
    · rw [List.filter_cons_of_pos (by simpa using hattr), List.foldl_cons]
      apply ih
      rw [Std.ExtTreeMap.getElem?_insert, Std.ExtTreeMap.getElem?_insert, hm]

theorem attrsByName_attr (s : NodeSketch) (name : String) (value : Attr) :
    attrsByName (s.attr name value).attrs = (attrsByName s.attrs).insert name value := by
  rw [attrsByName, NodeSketch.attr, List.foldl_append]
  apply Std.ExtTreeMap.ext_getElem?
  intro k
  simp only [List.foldl_cons, List.foldl_nil, Std.ExtTreeMap.getElem?_insert]
  split
  · rfl
  · next hk => exact getElem?_foldl_filter (by simpa using hk) s.attrs rfl

theorem foldl_attr (attrs : List (String × Attr)) (s : NodeSketch) :
    ∃ kept, attrs.foldl (fun s attr => s.attr attr.1 attr.2) s = { s with attrs := kept } ∧
      attrsByName kept = attrsByName (s.attrs ++ attrs) := by
  induction attrs generalizing s with
  | nil => exact ⟨s.attrs, rfl, by rw [List.append_nil]⟩
  | cons attr attrs ih =>
    obtain ⟨kept, hkept, hnames⟩ := ih (s.attr attr.1 attr.2)
    refine ⟨kept, hkept, hnames.trans ?_⟩
    have hattr := attrsByName_attr s attr.1 attr.2
    unfold attrsByName at hattr ⊢
    rw [List.foldl_append, hattr, List.foldl_append, List.foldl_cons]

end NodeSketch

theorem PatternBuilder.nodeWith_eq (key : OpKey) (operands : List (PatternId × Bool))
    (attrs : List (String × Attr)) : nodeWith key operands attrs =
      add (.node key (operands.map Prod.fst) (operands.map Prod.snd) (sortedAttrs attrs)) := by
  obtain ⟨kept, hkept, hnames⟩ := NodeSketch.foldl_attr attrs
    ⟨key, operands.map Prod.fst, operands.map Prod.snd, []⟩
  have hkind : nodeWith key operands attrs =
      add (.node key (operands.map Prod.fst) (operands.map Prod.snd) (sortedAttrs kept)) := by
    simp only [nodeWith, NodeSketch.foldl_operand]
    exact congrArg (fun s => add s.kind) hkept
  rw [hkind, sortedAttrs, hnames]
  rfl

inductive BuilderCall where
  | wildcard
  | constant
  | graphInput
  | node (key : OpKey) (operands : List (PatternId × Bool)) (attrs : List (String × Attr))
  | commutable (key : OpKey) (lhs rhs : PatternId)
  | anyOf (items : List PatternId)
  | allOf (items : List PatternId)
  | named (id : PatternId) (name : String)

namespace BuilderCall

open PatternBuilder in
def run : BuilderCall → Build PatternId
  | wildcard => PatternBuilder.wildcard
  | constant => PatternBuilder.constant
  | graphInput => PatternBuilder.graphInput
  | node key operands attrs => nodeWith key operands attrs
  | commutable key lhs rhs => PatternBuilder.commutable key lhs rhs
  | anyOf items => PatternBuilder.anyOf items
  | allOf items => PatternBuilder.allOf items
  | named id name => PatternBuilder.named id name

def runAll (calls : List BuilderCall) (b : PatternBuilder) : Except Fault PatternBuilder :=
  calls.foldlM (fun b call => Prod.snd <$> call.run b) b

end BuilderCall

namespace PatternBuilder

variable {b b' : PatternBuilder} {id : PatternId}

structure Sound (b : PatternBuilder) : Prop where
  names_size : b.names.size = b.kinds.size
  size_le : b.kinds.size ≤ capacity
  kinds_proper : ∀ (id : PatternId) (kind : PatternKind), b.kinds[id.index]? = some kind →
    kind.Proper id
  names_unique : ∀ (i j : Nat) name, b.names[i]? = some (some name) →
    b.names[j]? = some (some name) → i = j

theorem sound_empty : empty.Sound where
  names_size := rfl
  size_le := Nat.zero_le _
  kinds_proper _ _ hkind := by simp [empty] at hkind
  names_unique _ _ _ hi := by simp [empty] at hi

theorem get_bind {α : Type} (f : PatternBuilder → Build α) (b : PatternBuilder) :
    (get >>= f) b = f b b := rfl

theorem add_eq_ok_iff {kind : PatternKind} : add kind b = .ok (id, b') ↔
    (∀ child ∈ kind.children, child.index < b.kinds.size) ∧
      (kind.isLeaf = false ∧ b.shared.lookup kind = some id ∧ b' = b ∨
        (kind.isLeaf = true ∨ b.shared.lookup kind = none) ∧ b.kinds.size < capacity ∧
          id = ⟨b.kinds.size⟩ ∧ b' = b.append kind) := by
  rw [add, get_bind]
  cases hfind : kind.children.find? fun child => b.kinds.size ≤ child.index with
  | some child =>
    have houtside : b.kinds.size ≤ child.index := by simpa using List.find?_some hfind
    refine iff_of_false nofun fun h => ?_
    exact absurd (h.1 child (List.mem_of_find?_eq_some hfind)) (Nat.not_lt.mpr houtside)
  | none =>
    rw [and_iff_right (by simpa using hfind)]
    cases hshared : if kind.isLeaf then none else b.shared.lookup kind with
    | some shared =>
      obtain ⟨hleaf, hlookup⟩ : kind.isLeaf = false ∧ b.shared.lookup kind = some shared := by
        simpa using hshared
      rw [or_iff_left (by simp [hleaf, hlookup]), and_iff_right hleaf, hlookup]
      constructor
      · intro hrun
        cases hrun
        exact ⟨rfl, rfl⟩
      · rintro ⟨hid, rfl⟩
        cases hid
        rfl
    | none =>
      have hnew : kind.isLeaf = true ∨ b.shared.lookup kind = none := by
        simpa [or_iff_not_imp_left] using hshared
      rw [or_iff_right (by grind), and_iff_right hnew]
      dsimp only
      split
      · exact iff_of_false nofun (by omega)
      · next hroom =>
        constructor
        · intro hrun
          cases hrun
          exact ⟨by omega, rfl, rfl⟩
        · rintro ⟨-, rfl, rfl⟩
          rfl

theorem Sound.append (hb : b.Sound) {kind : PatternKind}
    (hchildren : ∀ child ∈ kind.children, child.index < b.kinds.size)
    (hroom : b.kinds.size < capacity) (hkind : kind.Balanced) : (b.append kind).Sound where
  names_size := by simp [PatternBuilder.append, hb.names_size]
  size_le := by
    rw [PatternBuilder.append, Array.size_push]
    exact hroom
  kinds_proper id kind' hget := by
    simp only [PatternBuilder.append, Array.getElem?_push] at hget
    split at hget
    · next hid =>
      cases hget
      exact ⟨fun child hchild => hid ▸ hchildren child hchild, hkind⟩
    · exact hb.kinds_proper id kind' hget
  names_unique i j name hi hj := by
    simp only [PatternBuilder.append, Array.getElem?_push] at hi hj
    split at hi
    · cases hi
    split at hj
    · cases hj
    exact hb.names_unique i j name hi hj

theorem Sound.add (hb : b.Sound) (kind : PatternKind) (hkind : kind.Balanced)
    (hrun : PatternBuilder.add kind b = .ok (id, b')) : b'.Sound := by
  obtain ⟨hchildren, ⟨-, -, rfl⟩ | ⟨-, hroom, -, rfl⟩⟩ := add_eq_ok_iff.mp hrun
  · exact hb
  · exact hb.append hchildren hroom hkind

theorem sortedAttrs_pairwise (attrs : List (String × Attr)) :
    (sortedAttrs attrs).Pairwise fun x y => x.1 < y.1 := by
  apply (Std.ExtTreeMap.ordered_keys_toList (t := attrsByName attrs)).imp
  intro x y hlt
  exact compareOfLessAndEq_eq_lt.mp hlt

theorem named_cases {id' : PatternId} {name : String} (hrun : named id name b = .ok (id', b')) :
    (id' = id ∧ id.index < b.kinds.size) ∧
      (∀ owner, b.names.toList.findIdx? (· == some name) = some owner → owner = id.index) ∧
      (∀ existing, b.names[id.index]?.join = some existing → existing = name) ∧
      b' = { b with names := b.names.setIfInBounds id.index (some name) } := by
  rw [named, get_bind] at hrun
  split at hrun
  · cases hrun
  · next hinside =>
    rw [Nat.not_le] at hinside
    -- The name may have an owner and the entry a name; only what agrees gets through.
    cases hfind : b.names.toList.findIdx? (· == some name) <;>
      cases hname : b.names[id.index]?.join <;>
      simp only [hfind, hname] at hrun <;> (repeat' split at hrun) <;> cases hrun <;> simp_all

theorem Sound.named (hb : b.Sound) {id' : PatternId} {name : String}
    (hrun : PatternBuilder.named id name b = .ok (id', b')) : b'.Sound := by
  obtain ⟨-, howner, -, rfl⟩ := named_cases hrun
  -- An entry that has the name already is the one that gets it.
  have hfirst : ∀ i : Nat, b.names[i]? = some (some name) → i = id.index := by
    intro i hi
    obtain ⟨owner, hfind⟩ : ∃ owner, b.names.toList.findIdx? (· == some name) = some owner := by
      rw [← Option.isSome_iff_exists, List.findIdx?_isSome, List.any_eq_true]
      exact ⟨some name, List.mem_of_getElem? (by rwa [Array.getElem?_toList]), beq_self_eq_true _⟩
    have hget : b.names[owner]? = some (some name) := by
      obtain ⟨hlt, hsame, -⟩ := List.findIdx?_eq_some_iff_getElem.mp hfind
      rw [← Array.getElem?_toList, List.getElem?_eq_getElem hlt, beq_iff_eq.mp hsame]
    rw [hb.names_unique i owner name hi hget, howner owner hfind]
  refine ⟨by simp [hb.names_size], hb.size_le, hb.kinds_proper, ?_⟩
  intro i j name' hi hj
  simp only [Array.getElem?_setIfInBounds] at hi hj
  grind [hb.names_unique i j name']

theorem Sound.run (hb : b.Sound) (call : BuilderCall) (hrun : call.run b = .ok (id, b')) :
    b'.Sound := by
  cases call with
  | wildcard => exact hb.add .wildcard trivial hrun
  | constant => exact hb.add .constant trivial hrun
  | graphInput => exact hb.add .graphInput trivial hrun
  | node key operands attrs =>
    rw [BuilderCall.run, nodeWith_eq] at hrun
    exact hb.add (.node _ _ _ _) ⟨by simp, sortedAttrs_pairwise attrs⟩ hrun
  | commutable key lhs rhs => exact hb.add (.commutable key lhs rhs) trivial hrun
  | anyOf items =>
    simp only [BuilderCall.run, anyOf] at hrun
    split at hrun
    · cases hrun
    · next hitems => exact hb.add (.anyOf items) (mt List.isEmpty_iff.mpr hitems) hrun
  | allOf items =>
    simp only [BuilderCall.run, allOf] at hrun
    split at hrun
    · cases hrun
    · next hitems => exact hb.add (.allOf items) (mt List.isEmpty_iff.mpr hitems) hrun
  | named id name => exact hb.named hrun

theorem sound_of_runAll {calls : List BuilderCall}
    (hrun : BuilderCall.runAll calls .empty = .ok b) : b.Sound := by
  refine foldlM_keeps calls ?_ _ _ sound_empty hrun
  intro call _ b b' hb hstep
  obtain ⟨⟨id, b₁⟩, hcall, rfl⟩ := map_eq_ok_iff.mp hstep
  exact hb.run call hcall

theorem freeze_eq_ok {root : PatternId} {p : Pattern} (h : b.freeze root = .ok p) :
    root.index < b.kinds.size ∧ p = ⟨b.kinds, b.names, root⟩ := by
  unfold freeze at h
  split at h
  · next hroot =>
    cases h
    exact ⟨hroot, rfl⟩
  · cases h

theorem Sound.valid (hb : b.Sound) {root : PatternId} {p : Pattern} (h : b.freeze root = .ok p) :
    p.Valid := by
  obtain ⟨hroot, rfl⟩ := freeze_eq_ok h
  exact ⟨hroot, hb.names_size, hb.kinds_proper, hb.names_unique⟩

end PatternBuilder

namespace Pattern

/-- The pattern was built or read. -/
inductive Obtained : Pattern → Prop where
  | built {calls : List BuilderCall} {b : PatternBuilder} {root : PatternId} {p : Pattern}
    (hrun : BuilderCall.runAll calls .empty = .ok b) (h : b.freeze root = .ok p) : Obtained p
  | read {bytes : Bytes} {p : Pattern} (h : ofBytes bytes = .ok p) : Obtained p

theorem Obtained.valid {p : Pattern} (hp : p.Obtained) : p.Valid := by
  cases hp with
  | built hrun h => exact (PatternBuilder.sound_of_runAll hrun).valid h
  | read h =>
    obtain ⟨b, -, hsound, rfl⟩ := ofBytes_eq_ok h
    exact hsound.valid_toPattern

end Pattern

end OpGraph
