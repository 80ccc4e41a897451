import OpGraph.Proofs.Pattern.Valid

/-!
What a builder keeps over any calls. Entries that refer to others are in the table once, and what
can be shared is exactly these. So a handle stands for one entry for good: the entry is found again
when it is asked for again, and no later call takes it or its name away.
-/

namespace OpGraph

/-! ### What calls ask for -/

namespace BuilderCall

def kind? : BuilderCall → Option PatternKind
  | wildcard => some .wildcard
  | constant => some .constant
  | graphInput => some .graphInput
  | node key operands attrs => some (.node key (operands.map Prod.fst) (operands.map Prod.snd)
    (PatternBuilder.sortedAttrs attrs))
  | commutable key lhs rhs => some (.commutable key lhs rhs)
  | anyOf items => some (.anyOf items)
  | allOf items => some (.allOf items)
  | named .. => none

theorem run_eq_ok_iff {call : BuilderCall} {kind : PatternKind} (hkind : call.kind? = some kind)
    {b b' : PatternBuilder} {id : PatternId} : call.run b = .ok (id, b') ↔
      kind.Balanced ∧ PatternBuilder.add kind b = .ok (id, b') := by
  cases call with
  | wildcard | constant | graphInput | commutable key lhs rhs =>
    cases hkind
    exact (and_iff_right trivial).symm
  | node key operands attrs =>
    cases hkind
    rw [run, PatternBuilder.nodeWith_eq]
    exact (and_iff_right ⟨by simp, PatternBuilder.sortedAttrs_pairwise attrs⟩).symm
  | anyOf items | allOf items =>
    cases hkind
    cases items with
    | nil =>
      refine iff_of_false (fun hrun => ?_) fun h => h.1 rfl
      cases hrun
    | cons item rest => exact (and_iff_right (List.cons_ne_nil item rest)).symm
  | named id name => cases hkind

end BuilderCall

inductive SketchPart where
  | domain (domain : String)
  | operand (id : PatternId) (optional : Bool)
  | attr (name : String) (value : Attr)

namespace NodeSketch

def extend (s : NodeSketch) : SketchPart → NodeSketch
  | .domain domain => s.inDomain domain
  | .operand id optional => s.operand id optional
  | .attr name value => s.attr name value

def ofParts (opType : String) (parts : List SketchPart) : NodeSketch :=
  parts.foldl extend (.start opType)

theorem length_optional (opType : String) (parts : List SketchPart) :
    (ofParts opType parts).operands.length = (ofParts opType parts).optional.length := by
  have hstep : ∀ (s : NodeSketch) part, s.operands.length = s.optional.length →
      (s.extend part).operands.length = (s.extend part).optional.length := by
    intro s part hs
    cases part with
    | operand id optional => simp [extend, operand, hs]
    | domain domain => exact hs
    | attr name value => exact hs
  unfold ofParts
  generalize hs : start opType = s
  have hstart : s.operands.length = s.optional.length := hs ▸ rfl
  clear hs
  induction parts generalizing s with
  | nil => exact hstart
  | cons part parts ih => exact ih _ (hstep s part hstart)

def call (s : NodeSketch) : BuilderCall :=
  .node s.key (s.operands.zip s.optional) s.attrs

theorem call_asks {s : NodeSketch} (hs : s.operands.length = s.optional.length) :
    s.call.kind? = some s.kind ∧ s.call.run = PatternBuilder.add s.kind := by
  have hkind : .node s.key ((s.operands.zip s.optional).map Prod.fst)
      ((s.operands.zip s.optional).map Prod.snd) (PatternBuilder.sortedAttrs s.attrs) = s.kind := by
    rw [List.map_fst_zip (Nat.le_of_eq hs), List.map_snd_zip (Nat.le_of_eq hs.symm), kind]
  rw [call, BuilderCall.kind?, BuilderCall.run, PatternBuilder.nodeWith_eq, hkind]
  exact ⟨rfl, rfl⟩

end NodeSketch

namespace PatternBuilder

variable {b b' b₁ : PatternBuilder} {id : PatternId} {kind : PatternKind}

/-! ### What can be shared -/

/-- What can be shared is what refers to other entries. -/
structure Interned (b : PatternBuilder) : Prop extends b.Sound where
  shared_iff : ∀ kind id, b.shared.lookup kind = some id ↔
    kind.isLeaf = false ∧ b.kinds[id.index]? = some kind

theorem interned_empty : empty.Interned where
  toSound := sound_empty
  shared_iff _ _ := by simp [empty]

inductive Enters (b : PatternBuilder) (kind : PatternKind) : PatternId → PatternBuilder → Prop where
  | again {id : PatternId} (hleaf : kind.isLeaf = false) (hthere : b.kinds[id.index]? = some kind) :
    Enters b kind id b
  | first (hnew : kind.isLeaf = true ∨ kind ∉ b.kinds) :
    Enters b kind ⟨b.kinds.size⟩ (b.append kind)

namespace Interned

variable (hb : b.Interned)

include hb

theorem unique {i j : Nat} (hleaf : kind.isLeaf = false) (hi : b.kinds[i]? = some kind)
    (hj : b.kinds[j]? = some kind) : i = j := by
  have hfound := (hb.shared_iff kind ⟨i⟩).mpr ⟨hleaf, hi⟩
  have hfound' := (hb.shared_iff kind ⟨j⟩).mpr ⟨hleaf, hj⟩
  cases hfound.symm.trans hfound'
  rfl

theorem lookup_eq_none_iff (hleaf : kind.isLeaf = false) :
    b.shared.lookup kind = none ↔ kind ∉ b.kinds := by
  rw [Option.eq_none_iff_forall_ne_some, Array.mem_iff_getElem?, not_exists]
  constructor
  · intro h i hi
    exact h ⟨i⟩ ((hb.shared_iff kind ⟨i⟩).mpr ⟨hleaf, hi⟩)
  · intro h id hid
    exact h id.index ((hb.shared_iff kind id).mp hid).2

theorem enters_of_add (hrun : add kind b = .ok (id, b')) : b.Enters kind id b' := by
  obtain ⟨-, ⟨hleaf, hlookup, rfl⟩ | ⟨hnew, -, rfl, rfl⟩⟩ := add_eq_ok_iff.mp hrun
  · exact .again hleaf ((hb.shared_iff kind id).mp hlookup).2
  · refine .first (or_iff_not_imp_left.mpr fun hleaf => ?_)
    rw [Bool.not_eq_true] at hleaf
    exact (hb.lookup_eq_none_iff hleaf).mp (hnew.resolve_left (by simp [hleaf]))

theorem add_again (hleaf : kind.isLeaf = false) (hthere : b.kinds[id.index]? = some kind) :
    add kind b = .ok (id, b) := by
  refine add_eq_ok_iff.mpr ⟨fun child hchild => ?_, .inl ⟨hleaf, ?_, rfl⟩⟩
  · have hlt := (hb.kinds_proper id kind hthere).children_lt child hchild
    exact Nat.lt_trans hlt (Array.getElem?_eq_some_iff.mp hthere).1
  · exact (hb.shared_iff kind id).mpr ⟨hleaf, hthere⟩

theorem lookup_append (hnew : kind.isLeaf = true ∨ kind ∉ b.kinds) (k : PatternKind) :
    (b.append kind).shared.lookup k =
      if kind.isLeaf = false ∧ k = kind then some ⟨b.kinds.size⟩ else b.shared.lookup k := by
  rw [PatternBuilder.append]
  cases hleaf : kind.isLeaf with
  | true => simp
  | false =>
    have hnone := (hb.lookup_eq_none_iff hleaf).mpr (hnew.resolve_left (by simp [hleaf]))
    rw [if_neg Bool.false_ne_true, List.lookup_append]
    by_cases hk : k = kind
    · simp [hk, hnone]
    · simp [hk, List.lookup_cons, beq_false_of_ne hk]

theorem append (hnew : kind.isLeaf = true ∨ kind ∉ b.kinds) (hsound : (b.append kind).Sound) :
    (b.append kind).Interned where
  toSound := hsound
  shared_iff k id := by
    obtain ⟨i⟩ := id
    have hpush : (b.append kind).kinds[i]? = if i = b.kinds.size then some kind else b.kinds[i]? :=
      Array.getElem?_push
    have hold := hb.shared_iff k ⟨i⟩
    have hlt : b.kinds[i]? = some k → i < b.kinds.size :=
      fun hget => (Array.getElem?_eq_some_iff.mp hget).1
    have hmem : b.kinds[i]? = some k → k ∈ b.kinds := fun hget => Array.mem_of_getElem? hget
    rw [hb.lookup_append hnew, hpush]
    grind

end Interned

/-! ### Going on -/

structure Continues (b : PatternBuilder) (ids : List PatternId) (b' : PatternBuilder) : Prop where
  interned : b'.Interned
  kinds : b.kinds.toList <+: b'.kinds.toList
  names : ∀ (i : Nat) name, b.names[i]? = some (some name) → b'.names[i]? = some (some name)
  dense : ∀ id : PatternId, id.index < b.kinds.size ∨ id ∈ ids ↔ id.index < b'.kinds.size

namespace Continues

variable {ids ids' : List PatternId}

theorem kind_kept (h : b.Continues ids b') {i : Nat} (hkind : b.kinds[i]? = some kind) :
    b'.kinds[i]? = some kind := by
  obtain ⟨rest, hrest⟩ := h.kinds
  rw [← Array.getElem?_toList] at hkind ⊢
  rw [← hrest, List.getElem?_append_left (List.getElem?_eq_some_iff.mp hkind).1, hkind]

theorem refl (hb : b.Interned) : b.Continues [] b where
  interned := hb
  kinds := List.prefix_refl _
  names _ _ hname := hname
  dense _ := by simp

theorem trans (h : b.Continues ids b₁) (h' : b₁.Continues ids' b') :
    b.Continues (ids ++ ids') b' where
  interned := h'.interned
  kinds := h.kinds.trans h'.kinds
  names i name hname := h'.names i name (h.names i name hname)
  dense id := by rw [List.mem_append, ← or_assoc, h.dense, h'.dense]

end Continues

namespace Interned

variable (hb : b.Interned)

include hb

theorem continues_of_enters (hsound : b'.Sound) (h : b.Enters kind id b') :
    b.Continues [id] b' ∧ b'.kinds[id.index]? = some kind := by
  cases h with
  | again hleaf hthere =>
    refine ⟨⟨hb, List.prefix_refl _, fun _ _ hname => hname, fun other => ?_⟩, hthere⟩
    rw [List.mem_singleton, or_iff_left_of_imp]
    rintro rfl
    exact (Array.getElem?_eq_some_iff.mp hthere).1
  | first hnew =>
    refine ⟨⟨hb.append hnew hsound, ?_, ?_, ?_⟩, Array.getElem?_push_size⟩
    · exact ⟨[kind], (Array.toList_push ..).symm⟩
    · intro i name hname
      have hlt := (Array.getElem?_eq_some_iff.mp hname).1
      rw [PatternBuilder.append, Array.getElem?_push_lt hlt, ← Array.getElem?_eq_getElem hlt, hname]
    · rintro ⟨i⟩
      simp only [List.mem_singleton, Handle.mk.injEq, PatternBuilder.append, Array.size_push]
      omega

theorem continues_of_named {id' : PatternId} {name : String}
    (hrun : PatternBuilder.named id name b = .ok (id', b')) : b.Continues [id'] b' := by
  have hsound := hb.named hrun
  obtain ⟨⟨rfl, hinside⟩, -, hexisting, rfl⟩ := named_cases hrun
  refine ⟨⟨hsound, hb.shared_iff⟩, List.prefix_refl _, ?_, ?_⟩
  · intro i name' hname
    have hlt := (Array.getElem?_eq_some_iff.mp hname).1
    rw [Array.getElem?_setIfInBounds]
    split
    · next hi =>
      -- The entry had this name before.
      subst hi
      rw [hname] at hexisting
      rw [if_pos hlt, hexisting name' rfl]
    · exact hname
  · intro other
    rw [List.mem_singleton, or_iff_left_of_imp]
    rintro rfl
    exact hinside

theorem enters_of_run {call : BuilderCall} (hkind : call.kind? = some kind)
    (hrun : call.run b = .ok (id, b')) : b.Enters kind id b' :=
  hb.enters_of_add ((BuilderCall.run_eq_ok_iff hkind).mp hrun).2

theorem run_again {call : BuilderCall} (hkind : call.kind? = some kind)
    (hleaf : kind.isLeaf = false) (hthere : b.kinds[id.index]? = some kind) :
    call.run b = .ok (id, b) :=
  (BuilderCall.run_eq_ok_iff hkind).mpr
    ⟨(hb.kinds_proper id kind hthere).balanced, hb.add_again hleaf hthere⟩

theorem continues_of_run {call : BuilderCall} (hrun : call.run b = .ok (id, b')) :
    b.Continues [id] b' ∧ ∀ kind, call.kind? = some kind → b'.kinds[id.index]? = some kind := by
  have hsound := hb.toSound.run call hrun
  cases hkind : call.kind? with
  | some kind =>
    obtain ⟨hcontinues, hthere⟩ := hb.continues_of_enters hsound (hb.enters_of_run hkind hrun)
    refine ⟨hcontinues, fun kind' hkind' => ?_⟩
    cases hkind'
    exact hthere
  | none =>
    cases call with
    | named id name => exact ⟨hb.continues_of_named hrun, nofun⟩
    | _ => cases hkind

end Interned

theorem build_bind_eq_ok_iff {α β : Type} {x : Build α} {f : α → Build β} {y : β} :
    (x >>= f) b = .ok (y, b') ↔ ∃ a b₁, x b = .ok (a, b₁) ∧ f a b₁ = .ok (y, b') := by
  refine bind_eq_ok_iff.trans ⟨?_, ?_⟩
  · rintro ⟨⟨a, b₁⟩, hx, hf⟩
    exact ⟨a, b₁, hx, hf⟩
  · rintro ⟨a, b₁, hx, hf⟩
    exact ⟨(a, b₁), hx, hf⟩

theorem Interned.continues_of_runs {calls : List BuilderCall} {ids : List PatternId}
    (hb : b.Interned) (hrun : calls.mapM BuilderCall.run b = .ok (ids, b')) :
    b.Continues ids b' ∧ ∀ x ∈ calls.zip ids, ∀ kind, x.1.kind? = some kind →
      b'.kinds[x.2.index]? = some kind := by
  induction calls generalizing b ids with
  | nil =>
    cases hrun
    exact ⟨.refl hb, nofun⟩
  | cons call calls ih =>
    rw [List.mapM_cons, build_bind_eq_ok_iff] at hrun
    obtain ⟨id, b₁, hcall, hrun⟩ := hrun
    obtain ⟨rest, b₂, hrest, hrun⟩ := build_bind_eq_ok_iff.mp hrun
    cases hrun
    obtain ⟨hcontinues, hgiven⟩ := hb.continues_of_run hcall
    obtain ⟨hcontinues', hgiven'⟩ := ih hcontinues.interned hrest
    refine ⟨hcontinues.trans hcontinues', ?_⟩
    rw [List.zip_cons_cons, List.forall_mem_cons]
    exact ⟨fun kind hkind => hcontinues'.kind_kept (hgiven kind hkind), hgiven'⟩

/-! ### All calls -/

/-- What holds of a builder after calls that gave these handles. -/
structure Accounts (b : PatternBuilder) (calls : List BuilderCall) (ids : List PatternId) : Prop
    extends b.Interned where
  /-- The handles are the positions in the table. -/
  dense : ∀ id, id ∈ ids ↔ id.index < b.kinds.size
  /-- A handle stands for the entry that it was given for. -/
  given : ∀ x ∈ calls.zip ids, ∀ kind, x.1.kind? = some kind → b.kinds[x.2.index]? = some kind
  distinct : ∀ (i j : Nat) kind, kind.isLeaf = false → b.kinds[i]? = some kind →
    b.kinds[j]? = some kind → i = j
  /-- To ask for an entry that refers to others again gives its handle and adds nothing. -/
  again : ∀ (call : BuilderCall) kind (id : PatternId), call.kind? = some kind →
    kind.isLeaf = false → b.kinds[id.index]? = some kind → call.run b = .ok (id, b)
  /-- Leaves and entries that are not there yet are put at the end. -/
  first : ∀ (call : BuilderCall) kind id b', call.kind? = some kind → call.run b = .ok (id, b') →
    kind.isLeaf = true ∨ kind ∉ b.kinds → id = ⟨b.kinds.size⟩ ∧ b' = b.append kind
  /-- What is frozen now is part of what is frozen after more calls. -/
  frozen : ∀ (later : List BuilderCall) ids' b', later.mapM BuilderCall.run b = .ok (ids', b') →
    ∀ root root' p p', b.freeze root = .ok p → b'.freeze root' = .ok p' →
      p.kinds.toList <+: p'.kinds.toList ∧
        ∀ id name, p.name? id = some name → p'.name? id = some name

theorem Interned.prefix_of_freeze (hb : b.Interned) {later : List BuilderCall}
    {ids : List PatternId} (hrun : later.mapM BuilderCall.run b = .ok (ids, b'))
    {root root' : PatternId} {p p' : Pattern} (hp : b.freeze root = .ok p)
    (hp' : b'.freeze root' = .ok p') : p.kinds.toList <+: p'.kinds.toList ∧
      ∀ id name, p.name? id = some name → p'.name? id = some name := by
  obtain ⟨hcontinues, -⟩ := hb.continues_of_runs hrun
  obtain ⟨-, rfl⟩ := freeze_eq_ok hp
  obtain ⟨-, rfl⟩ := freeze_eq_ok hp'
  refine ⟨hcontinues.kinds, fun id name hname => ?_⟩
  rw [Pattern.name?, Option.join_eq_some_iff] at hname ⊢
  exact hcontinues.names id.index name hname

/--
After any calls that went through, the table holds every entry that refers to others once, in the
place that its handle names, and for good. A node that is put together part by part is one of the
calls.
-/
theorem accounts_of_runs {calls : List BuilderCall} {ids : List PatternId}
    (hrun : calls.mapM BuilderCall.run empty = .ok (ids, b)) :
    b.Accounts calls ids ∧ ∀ opType parts, ∃ call : BuilderCall,
      call.kind? = some (NodeSketch.ofParts opType parts).kind ∧
      call.run = add (NodeSketch.ofParts opType parts).kind := by
  obtain ⟨hcontinues, hgiven⟩ := interned_empty.continues_of_runs hrun
  have hb := hcontinues.interned
  refine ⟨⟨hb, fun id => ?_, hgiven, fun _ _ _ => hb.unique, fun _ _ _ => hb.run_again, ?_, ?_⟩, ?_⟩
  · rw [← hcontinues.dense, or_iff_right (by simp [empty])]
  · intro call kind id b' hkind hcall hnew
    cases hb.enters_of_run hkind hcall with
    | again hleaf hthere =>
      exact absurd (Array.mem_of_getElem? hthere) (hnew.resolve_left (by simp [hleaf]))
    | first _ => exact ⟨rfl, rfl⟩
  · intro later ids' b' hlater root root' p p'
    exact hb.prefix_of_freeze hlater
  · intro opType parts
    exact ⟨_, NodeSketch.call_asks (NodeSketch.length_optional opType parts)⟩

def convolutionCalls : List BuilderCall :=
  [.wildcard, .constant,
    .node (.standard "Conv") [(⟨0⟩, false), (⟨1⟩, true)]
      [("strides", .ints [2, 2]), ("group", .int 1), ("strides", .ints [1, 1])],
    .named ⟨2⟩ "conv",
    .node (.standard "Conv") [(⟨0⟩, false), (⟨1⟩, true)]
      [("group", .int 1), ("strides", .ints [1, 1])],
    .wildcard, .commutable (.standard "Add") ⟨2⟩ ⟨3⟩]

theorem accounts_of_convolution : ∃ b,
    convolutionCalls.mapM BuilderCall.run empty = .ok ([⟨0⟩, ⟨1⟩, ⟨2⟩, ⟨2⟩, ⟨2⟩, ⟨3⟩, ⟨4⟩], b) ∧
      b.Accounts convolutionCalls [⟨0⟩, ⟨1⟩, ⟨2⟩, ⟨2⟩, ⟨2⟩, ⟨3⟩, ⟨4⟩] := by
  have hrun : ((convolutionCalls.mapM BuilderCall.run empty).map Prod.fst).toOption =
      some [⟨0⟩, ⟨1⟩, ⟨2⟩, ⟨2⟩, ⟨2⟩, ⟨3⟩, ⟨4⟩] := by decide +kernel
  obtain ⟨⟨ids, b⟩, hb, rfl⟩ := map_eq_ok_iff.mp (eq_ok_of_mem_toOption hrun)
  exact ⟨b, hb, (accounts_of_runs hb).1⟩

end PatternBuilder

end OpGraph
