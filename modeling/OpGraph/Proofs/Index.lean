import OpGraph.Graph.Edit

/-!
The indices of a graph as maps. A use index is read through the number of slots it counts for an arg
and a node; two tidy indices that count the same are equal.
-/

namespace OpGraph

namespace Graph

/-! ### Producers -/

theorem getElem?_foldl_insert (outputs : List ArgId) (id : NodeId)
    (producers : Std.ExtTreeMap ArgId NodeId) (a : ArgId) :
    (outputs.foldl (fun p arg => p.insert arg id) producers)[a]?
      =
    if a ∈ outputs then some id else producers[a]? := by
  induction outputs generalizing producers with
  | nil => simp
  | cons b outputs ih =>
    rw [List.foldl_cons, ih, Std.ExtTreeMap.getElem?_insert]
    by_cases h : a ∈ outputs
    · simp [h]
    · by_cases hb : b = a
      · simp [hb]
      · simp [h, hb, Ne.symm hb]

theorem getElem?_foldl_erase (outputs : List ArgId) (producers : Std.ExtTreeMap ArgId NodeId)
    (a : ArgId) :
    (outputs.foldl (fun p arg => p.erase arg) producers)[a]?
      =
    if a ∈ outputs then none else producers[a]? := by
  induction outputs generalizing producers with
  | nil => simp
  | cons b outputs ih =>
    rw [List.foldl_cons, ih, Std.ExtTreeMap.getElem?_erase]
    by_cases h : a ∈ outputs
    · simp [h]
    · by_cases hb : b = a
      · simp [hb]
      · simp [h, hb, Ne.symm hb]

/-! ### Uses -/

def countIn (consumers : Std.ExtTreeMap ArgId Uses) (a : ArgId) (id : NodeId) : Nat :=
  (consumers.getD a ∅).getD id 0

structure Tidy (consumers : Std.ExtTreeMap ArgId Uses) : Prop where
  nonempty : ∀ (a : ArgId) (uses : Uses), consumers[a]? = some uses → uses ≠ ∅
  positive : ∀ (a : ArgId) (uses : Uses) (id : NodeId) (count : Nat),
    consumers[a]? = some uses → uses[id]? = some count → 0 < count

theorem tidy_empty : Tidy ∅ where
  nonempty := by simp
  positive := by simp

theorem countIn_empty (a : ArgId) (id : NodeId) : countIn ∅ a id = 0 := by
  simp [countIn]

theorem countIn_of_getElem? {consumers : Std.ExtTreeMap ArgId Uses} {a : ArgId} {uses : Uses}
    (h : consumers[a]? = some uses) (id : NodeId) : countIn consumers a id = uses.getD id 0 := by
  rw [countIn, Std.ExtTreeMap.getD_eq_getD_getElem? (t := consumers), h]
  rfl

theorem countIn_of_getElem?_none {consumers : Std.ExtTreeMap ArgId Uses} {a : ArgId}
    (h : consumers[a]? = none) (id : NodeId) : countIn consumers a id = 0 := by
  rw [countIn, Std.ExtTreeMap.getD_eq_getD_getElem? (t := consumers), h]
  simp

theorem Tidy.mem_uses_iff {consumers : Std.ExtTreeMap ArgId Uses} (h : Tidy consumers) {a : ArgId}
    {uses : Uses} (ha : consumers[a]? = some uses) (id : NodeId) :
    id ∈ uses ↔ 0 < countIn consumers a id := by
  rw [countIn_of_getElem? ha, Std.ExtTreeMap.mem_iff_isSome_getElem?,
    Std.ExtTreeMap.getD_eq_getD_getElem?]
  cases hid : uses[id]? with
  | none => simp
  | some count => simpa using h.positive a uses id count ha hid

theorem Tidy.contains_iff {consumers : Std.ExtTreeMap ArgId Uses} (h : Tidy consumers) (a : ArgId) :
    a ∈ consumers ↔ ∃ id, 0 < countIn consumers a id := by
  rw [Std.ExtTreeMap.mem_iff_isSome_getElem?]
  cases ha : consumers[a]? with
  | none => simp [countIn_of_getElem?_none ha]
  | some uses =>
    simp only [Option.isSome_some, true_iff]
    -- Some key of the uses, which are not empty.
    obtain ⟨id, hid⟩ : ∃ id, id ∈ uses := by
      apply Classical.byContradiction
      intro hnone
      apply h.nonempty a uses ha
      apply Std.ExtTreeMap.ext_getElem?
      intro id
      have : id ∉ uses := fun hid => hnone ⟨id, hid⟩
      simp [Std.ExtTreeMap.getElem?_eq_none this]
    exact ⟨id, (h.mem_uses_iff ha id).mp hid⟩

theorem Tidy.ext {m m' : Std.ExtTreeMap ArgId Uses} (h : Tidy m) (h' : Tidy m')
    (hcount : ∀ a id, countIn m a id = countIn m' a id) : m = m' := by
  have hmem : ∀ a, a ∈ m ↔ a ∈ m' := by
    intro a
    rw [h.contains_iff, h'.contains_iff]
    simp only [hcount]
  apply Std.ExtTreeMap.ext_getElem?
  intro a
  cases ha : m[a]? with
  | none =>
    have : a ∉ m' := by
      rw [← hmem, Std.ExtTreeMap.mem_iff_isSome_getElem?, ha]
      simp
    rw [Std.ExtTreeMap.getElem?_eq_none this]
  | some uses =>
    have hc' : a ∈ m' := by
      rw [← hmem, Std.ExtTreeMap.mem_iff_isSome_getElem?, ha]
      rfl
    rw [Std.ExtTreeMap.mem_iff_isSome_getElem?] at hc'
    obtain ⟨uses', ha'⟩ := Option.isSome_iff_exists.mp hc'
    rw [ha']
    congr 1
    apply Std.ExtTreeMap.ext_getElem?
    intro id
    have hid := hcount a id
    rw [countIn_of_getElem? ha, countIn_of_getElem? ha', Std.ExtTreeMap.getD_eq_getD_getElem?,
      Std.ExtTreeMap.getD_eq_getD_getElem?] at hid
    -- Counts are positive, so a missing reader and a count of zero cannot be mistaken.
    cases hu : uses[id]? with
    | none =>
      cases hu' : uses'[id]? with
      | none => rfl
      | some count =>
        have := h'.positive a uses' id count ha' hu'
        simp [hu, hu'] at hid
        omega
    | some count =>
      have := h.positive a uses id count ha hu
      cases hu' : uses'[id]? with
      | none =>
        simp [hu, hu'] at hid
        omega
      | some count' => simpa [hu, hu'] using hid

theorem countIn_insert (m : Std.ExtTreeMap ArgId Uses) (a b : ArgId) (uses : Uses) (id : NodeId) :
    countIn (m.insert a uses) b id = if a = b then uses.getD id 0 else countIn m b id := by
  rw [countIn, Std.ExtTreeMap.getD_insert]
  by_cases h : a = b
  · simp [h]
  · simp [h, countIn]

theorem countIn_erase (m : Std.ExtTreeMap ArgId Uses) (a b : ArgId) (id : NodeId) :
    countIn (m.erase a) b id = if a = b then 0 else countIn m b id := by
  rw [countIn, Std.ExtTreeMap.getD_erase]
  by_cases h : a = b
  · simp [h]
  · simp [h, countIn]

theorem Tidy.insert {m : Std.ExtTreeMap ArgId Uses} (h : Tidy m) {a : ArgId} {uses : Uses}
    (hne : uses ≠ ∅) (hpos : ∀ (id : NodeId) (count : Nat), uses[id]? = some count → 0 < count) :
    Tidy (m.insert a uses) where
  nonempty b uses' hb := by
    rw [Std.ExtTreeMap.getElem?_insert] at hb
    split at hb
    · simpa [← Option.some.inj hb] using hne
    · exact h.nonempty b uses' hb
  positive b uses' id count hb hcount := by
    rw [Std.ExtTreeMap.getElem?_insert] at hb
    split at hb
    · rw [← Option.some.inj hb] at hcount
      exact hpos id count hcount
    · exact h.positive b uses' id count hb hcount

theorem Tidy.erase {m : Std.ExtTreeMap ArgId Uses} (h : Tidy m) (a : ArgId) : Tidy (m.erase a) where
  nonempty b uses hb := by
    rw [Std.ExtTreeMap.getElem?_erase] at hb
    split at hb
    · cases hb
    · exact h.nonempty b uses hb
  positive b uses id count hb hcount := by
    rw [Std.ExtTreeMap.getElem?_erase] at hb
    split at hb
    · cases hb
    · exact h.positive b uses id count hb hcount

theorem insert_ne_empty (uses : Uses) (id : NodeId) (count : Nat) : uses.insert id count ≠ ∅ := by
  intro h
  have : id ∈ uses.insert id count := Std.ExtTreeMap.mem_insert_self
  rw [h] at this
  simp at this

theorem countIn_addUse (m : Std.ExtTreeMap ArgId Uses) (a b : ArgId) (id id' : NodeId) :
    countIn (addUse m a id) b id' = countIn m b id' + if a = b ∧ id = id' then 1 else 0 := by
  rw [addUse, countIn_insert, Std.ExtTreeMap.getD_insert]
  by_cases h : a = b
  · subst h
    by_cases hid : id = id'
    · simp [hid, countIn]
    · simp [hid, countIn]
  · simp [h]

theorem Tidy.addUse {m : Std.ExtTreeMap ArgId Uses} (h : Tidy m) (a : ArgId) (id : NodeId) :
    Tidy (addUse m a id) := by
  apply h.insert
  · apply insert_ne_empty
  · intro id' count hcount
    rw [Std.ExtTreeMap.getElem?_insert] at hcount
    split at hcount
    · have := Option.some.inj hcount
      omega
    · rw [Std.ExtTreeMap.getD_eq_getD_getElem?] at hcount
      cases ha : m[a]? with
      | none => simp [ha] at hcount
      | some uses => exact h.positive a uses id' count ha (by simpa [ha] using hcount)

theorem foldl_addUse (inputs : List ArgId) (id : NodeId) {m : Std.ExtTreeMap ArgId Uses}
    (h : Tidy m) :
    Tidy (inputs.foldl (fun m arg => addUse m arg id) m) ∧
    ∀ a id', countIn (inputs.foldl (fun m arg => addUse m arg id) m) a id'
      =
    countIn m a id' + if id = id' then inputs.count a else 0 := by
  induction inputs generalizing m with
  | nil => simp [h]
  | cons b inputs ih =>
    obtain ⟨htidy, hcount⟩ := ih (h.addUse b id)
    refine ⟨htidy, ?_⟩
    intro a id'
    rw [List.foldl_cons, hcount, countIn_addUse, List.count_cons]
    by_cases hid : id = id'
    · by_cases hb : b = a
      · simp [hid, hb]
        omega
      · simp [hid, hb]
    · simp [hid]

theorem countIn_dropUse {m : Std.ExtTreeMap ArgId Uses} (h : Tidy m) (a b : ArgId)
    (id id' : NodeId) :
    countIn (dropUse m a id) b id' = countIn m b id' - if a = b ∧ id = id' then 1 else 0 := by
  rw [dropUse]
  cases ha : m[a]? with
  | none =>
    by_cases hab : a = b
    · subst hab
      simp [countIn_of_getElem?_none ha]
    · simp [hab]
  | some uses =>
    -- What the index says about `a` afterwards; an empty set of uses says the same as none.
    have key : ∀ uses' : Uses,
        (∀ id', uses'.getD id' 0 = uses.getD id' 0 - if id = id' then 1 else 0) →
        countIn (if uses'.isEmpty then m.erase a else m.insert a uses') b id'
          =
        countIn m b id' - if a = b ∧ id = id' then 1 else 0 := by
      intro uses' huses'
      by_cases hab : a = b
      · subst hab
        rw [countIn_of_getElem? ha]
        split
        · next hempty =>
          rw [Std.ExtTreeMap.isEmpty_iff] at hempty
          have := huses' id'
          rw [hempty] at this
          simp [countIn_erase] at this ⊢
          exact this
        · rw [countIn_insert, huses']
          simp
      · split
        · simp [countIn_erase, hab]
        · simp [countIn_insert, hab]
    apply key
    intro id'
    cases hid : uses[id]? with
    | none =>
      by_cases heq : id = id'
      · subst heq
        simp [Std.ExtTreeMap.getD_eq_getD_getElem?, hid]
      · simp [heq]
    | some count =>
      have hpos := h.positive a uses id count ha hid
      have hget : uses.getD id 0 = count := by
        simp [Std.ExtTreeMap.getD_eq_getD_getElem?, hid]
      dsimp only
      split
      · next hone =>
        rw [Std.ExtTreeMap.getD_erase]
        by_cases heq : id = id'
        · subst heq
          simp [hget, hone]
        · simp [heq]
      · rw [Std.ExtTreeMap.getD_insert]
        by_cases heq : id = id'
        · subst heq
          simp [hget]
        · simp [heq]

theorem Tidy.dropUse {m : Std.ExtTreeMap ArgId Uses} (h : Tidy m) (a : ArgId) (id : NodeId) :
    Tidy (dropUse m a id) := by
  rw [Graph.dropUse]
  cases ha : m[a]? with
  | none => exact h
  | some uses =>
    have key : ∀ uses' : Uses,
        (∀ (id' : NodeId) (count : Nat), uses'[id']? = some count → 0 < count) →
        Tidy (if uses'.isEmpty then m.erase a else m.insert a uses') := by
      intro uses' hpos
      split
      · exact h.erase a
      · next hempty =>
        apply h.insert
        · simpa using hempty
        · exact hpos
    apply key
    intro id' count' hcount'
    cases hid : uses[id]? with
    | none =>
      simp only [hid] at hcount'
      exact h.positive a uses id' count' ha hcount'
    | some count =>
      have hpos := h.positive a uses id count ha hid
      simp only [hid] at hcount'
      split at hcount'
      · rw [Std.ExtTreeMap.getElem?_erase] at hcount'
        split at hcount'
        · cases hcount'
        · exact h.positive a uses id' count' ha hcount'
      · rw [Std.ExtTreeMap.getElem?_insert] at hcount'
        split at hcount'
        · have := Option.some.inj hcount'
          omega
        · exact h.positive a uses id' count' ha hcount'

theorem foldl_dropUse (inputs : List ArgId) (id : NodeId) {m : Std.ExtTreeMap ArgId Uses}
    (h : Tidy m) :
    Tidy (inputs.foldl (fun m arg => dropUse m arg id) m) ∧
    ∀ a id', countIn (inputs.foldl (fun m arg => dropUse m arg id) m) a id'
      =
    countIn m a id' - if id = id' then inputs.count a else 0 := by
  induction inputs generalizing m with
  | nil => simp [h]
  | cons b inputs ih =>
    obtain ⟨htidy, hcount⟩ := ih (h.dropUse b id)
    refine ⟨htidy, ?_⟩
    intro a id'
    rw [List.foldl_cons, hcount, countIn_dropUse h, List.count_cons]
    by_cases hid : id = id'
    · by_cases hb : b = a
      · simp [hid, hb]
        omega
      · simp [hid, hb]
    · simp [hid]

end Graph

end OpGraph
