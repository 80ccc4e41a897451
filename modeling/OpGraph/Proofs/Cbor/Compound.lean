import OpGraph.Cbor.Values
import OpGraph.Proofs.Cbor.Reads

/-!
Lists, records and variants read back. Whether a compound item is read right depends only on its
parts: for a record on what its step does with each field in turn.
-/

namespace OpGraph.Cbor

open Bytes

variable {α β σ : Type}

/-! ### Lists -/

theorem reads_times {read : Reader β} {write : α → Bytes} {f : α → β} {as : List α}
    (h : ∀ a ∈ as, Reads read (write a) (f a)) :
    Reads (times read as.length) (as.flatMap write) (as.map f) := by
  induction as with
  | nil => exact .pure []
  | cons a as ih =>
    rw [List.forall_mem_cons] at h
    exact h.1.bind (ih h.2).map

theorem length_le_flatMap {write : α → Bytes} {as : List α} (h : ∀ a ∈ as, write a ≠ []) :
    as.length ≤ (as.flatMap write).length := by
  induction as with
  | nil => exact Nat.le_refl 0
  | cons a as ih =>
    rw [List.forall_mem_cons] at h
    have hfirst := List.length_pos_iff.mpr h.1
    have hrest := ih h.2
    rw [List.length_cons, List.flatMap_cons, List.length_append]
    omega

theorem length_le_flatMap_of_mem (write : α → Bytes) {as : List α} {a : α} (ha : a ∈ as) :
    (write a).length ≤ (as.flatMap write).length := by
  obtain ⟨front, back, rfl⟩ := List.append_of_mem ha
  rw [List.flatMap_append, List.flatMap_cons, List.length_append, List.length_append]
  omega

theorem decodes_map {item : Item β} {write : α → Bytes} {f : α → β} {as : List α}
    (h : ∀ a ∈ as, Decodes item.read (write a) (f a)) :
    Decodes (listOf item) (writeList write as) (as.map f) where
  ne_nil := List.append_ne_nil_of_left_ne_nil (head_ne_nil _ _) _
  reads hlength := by
    have hcount := length_le_flatMap fun a ha => (h a ha).ne_nil
    rw [writeList, List.length_append] at hlength
    refine Reads.bind (reads_untagged (by decide) (by omega)) ?_
    refine .of_remaining fun n hn => ?_
    rw [if_pos (Nat.le_trans hcount hn)]
    refine reads_times fun a ha => (h a ha).reads ?_
    have := length_le_flatMap_of_mem write ha
    omega

theorem decodes_list {item : Item α} {write : α → Bytes} {as : List α}
    (h : ∀ a ∈ as, Decodes item.read (write a) a) :
    Decodes (listOf item) (writeList write as) as := by
  have hlist := decodes_map (f := id) h
  rwa [List.map_id] at hlist

theorem reads_nextItem {read : Reader α} {bytes : Bytes} {a : α} (h : Reads read bytes a)
    (n : Nat) : Reads (nextItem read (some (n + 1))) bytes (a, some n) :=
  h.map (f := fun a => (a, some n))

theorem Decodes.pair {first : Reader α} {second : Reader β} {front back : Bytes} {a : α} {b : β}
    (ha : Decodes first front a) (hb : Decodes second back b) :
    Decodes (pairOf first second) (head 4 2 ++ front ++ back) (a, b) where
  ne_nil := by simp [head_ne_nil]
  reads hlength := by
    rw [List.length_append, List.length_append] at hlength
    rw [List.append_assoc]
    refine Reads.bind (reads_untagged (by decide) (by decide)) ?_
    have hfirst := reads_nextItem (ha.reads (by omega)) 1
    have hsecond := reads_nextItem (hb.reads (by omega)) 0
    exact hfirst.bind (hsecond.map (f := fun p => (a, p.1)))

/-! ### Records -/

def fieldBytes (field : String × Bytes) : Bytes :=
  writeText field.1 ++ field.2

theorem writeRecord_eq (fields : List (String × Bytes)) :
    writeRecord fields = head 5 fields.length ++ fields.flatMap fieldBytes := rfl

theorem length_le_fieldBytes (fields : List (String × Bytes)) :
    fields.length ≤ (fields.flatMap fieldBytes).length :=
  length_le_flatMap fun field _ => List.append_ne_nil_of_left_ne_nil (writeText_ne_nil field.1) _

theorem writeRecord_ne_nil (fields : List (String × Bytes)) : writeRecord fields ≠ [] :=
  List.append_ne_nil_of_left_ne_nil (head_ne_nil _ _) _

theorem length_fields_lt {fields : List (String × Bytes)}
    (hlength : (writeRecord fields).length < Word.limit) : fields.length < Word.limit := by
  have := length_le_fieldBytes fields
  rw [writeRecord_eq, List.length_append] at hlength
  omega

inductive FieldsRead (step : Bytes → σ → Reader σ) : σ → List (String × Bytes) → σ → Prop where
  | nil (s : σ) : FieldsRead step s [] s
  | cons {s s₁ s₂ : σ} {name : String} {value : Bytes} {rest : List (String × Bytes)}
    (hname : name.utf8ByteSize ≤ nameLimit)
    (hvalue : Decodes (step (ofText name) s) value s₁) (hrest : FieldsRead step s₁ rest s₂) :
    FieldsRead step s ((name, value) :: rest) s₂

namespace FieldsRead

variable {step : Bytes → σ → Reader σ} {s s' : σ} {fields : List (String × Bytes)}

theorem once (name : String) {value : Bytes} {read : Reader α} {a : α} (put : σ → Option α → σ)
    (hname : name.utf8ByteSize ≤ nameLimit)
    (hstep : step (ofText name) s = do return put s (← Cbor.once read none))
    (hvalue : Decodes read value a) (hrest : FieldsRead step (put s (some a)) fields s') :
    FieldsRead step s ((name, value) :: fields) s' :=
  .cons hname (hstep ▸ hvalue.once (put s)) hrest

theorem reads_loop (h : FieldsRead step s fields s')
    (hlength : (fields.flatMap fieldBytes).length < Word.limit) :
    ∀ fuel, fields.length < fuel →
      Reads (fieldsLoop step fuel (some fields.length) s) (fields.flatMap fieldBytes) s' := by
  induction h with
  | nil s =>
    rintro (_ | fuel) hfuel
    · cases hfuel
    · exact .pure s
  | @cons s s₁ s₂ name value rest hname hvalue _ ih =>
    rintro (_ | fuel) hfuel
    · cases hfuel
    simp only [List.flatMap_cons, fieldBytes, List.length_append] at hlength
    have hrest := ih (by omega) fuel (Nat.lt_of_succ_lt_succ hfuel)
    have hfield := (hvalue.reads (by omega)).bind (f := fieldsLoop step fuel _) hrest
    rw [List.flatMap_cons, fieldBytes, List.append_assoc]
    exact (reads_name hname).bind (f := fun key => step key s >>= fieldsLoop step fuel _) hfield

theorem reads_fields (h : FieldsRead step s fields s')
    (hlength : (writeRecord fields).length < Word.limit) :
    Reads (Cbor.fields step (some fields.length) s) (fields.flatMap fieldBytes) s' := by
  rw [writeRecord_eq, List.length_append] at hlength
  have hcount := length_le_fieldBytes fields
  exact .of_remaining fun n hn => h.reads_loop (by omega) (n + 1) (by omega)

theorem decodes_record (h : FieldsRead step s fields s') :
    Decodes (record step s) (writeRecord fields) s' where
  ne_nil := writeRecord_ne_nil fields
  reads hlength :=
    (reads_untagged (by decide) (length_fields_lt hlength)).bind (h.reads_fields hlength)

end FieldsRead

/-! ### Variants -/

theorem get_bind (f : Bytes → Reader α) (bytes : Bytes) : (get >>= f) bytes = f bytes bytes := rfl

theorem reads_variant_text {tag : String} (htag : tag.utf8ByteSize ≤ nameLimit) :
    Reads variant (writeText tag) (ofText tag) := by
  have hcount : (ofText tag).length < Word.limit :=
    length_ofText tag ▸ Nat.lt_of_le_of_lt htag (by decide)
  intro rest
  have hheader := reads_untagged (by decide : 3 < 6) hcount (ofText tag ++ rest)
  rw [← List.append_assoc] at hheader
  -- The header is read to see what follows, and then once more with the name.
  rw [variant, get_bind]
  exact (bind_of_eq_some hheader).trans (reads_name htag rest)

theorem reads_variant_record {tag : String} (htag : tag.utf8ByteSize ≤ nameLimit) :
    Reads variant (head 5 1 ++ writeText tag) (ofText tag) := by
  intro rest
  have hheader := reads_untagged (by decide : 5 < 6) (by decide : 1 < Word.limit)
    (writeText tag ++ rest)
  rw [← List.append_assoc] at hheader
  rw [variant, get_bind]
  exact (bind_of_eq_some hheader).trans (reads_name htag rest)

/-! ### Tagged values -/

section Tagged

variable {tagName contentName : String} {fuel n : Nat}

theorem reads_relevant_tag (hname : tagName.utf8ByteSize ≤ nameLimit) :
    Reads (relevant tagName contentName (fuel + 1) (some (n + 1))) (writeText tagName)
      (some (true, some n)) := by
  intro rest
  rw [relevant, next, pure_bind]
  refine (bind_of_eq_some (reads_name hname rest)).trans ?_
  rw [isName_ofText, if_pos (beq_self_eq_true tagName)]
  rfl

theorem reads_relevant_content (hname : contentName.utf8ByteSize ≤ nameLimit)
    (hne : contentName ≠ tagName) :
    Reads (relevant tagName contentName (fuel + 1) (some (n + 1))) (writeText contentName)
      (some (false, some n)) := by
  intro rest
  rw [relevant, next, pure_bind]
  refine (bind_of_eq_some (reads_name hname rest)).trans ?_
  rw [isName_ofText, isName_ofText, if_neg (by simpa using hne), if_pos (beq_self_eq_true _)]
  rfl

theorem reads_noMore : Reads (noMore tagName contentName (some 0)) [] () :=
  fun _ => rfl

theorem Decodes.tagged {tag : String} {content : Bytes} {a : α} {known : Bytes → Reader α}
    (hcontent : Decodes (known (ofText tag)) content a)
    (htag : tag.utf8ByteSize ≤ nameLimit)
    (htagName : tagName.utf8ByteSize ≤ nameLimit)
    (hcontentName : contentName.utf8ByteSize ≤ nameLimit) (hne : contentName ≠ tagName)
    (kept : Bytes → Datum → Option α) :
    Decodes (tagged tagName contentName known kept) (writeTagged tagName contentName tag content) a
      where
  ne_nil := writeRecord_ne_nil _
  reads hlength := by
    have hbytes : writeTagged tagName contentName tag content = head 5 2 ++
        (writeText tagName ++ (writeText tag ++ (writeText contentName ++ (content ++ [])))) := by
      simp [writeTagged, writeRecord]
    rw [hbytes] at hlength ⊢
    simp only [List.length_append] at hlength
    have hknown := (hcontent.reads (by omega)).bind (f := fun a => do
      noMore tagName contentName (some 0)
      return a) (reads_noMore.map (f := fun _ => a))
    refine (reads_untagged (by decide) (by decide)).bind (.of_remaining fun _ _ => ?_)
    refine (reads_relevant_tag htagName).bind ((reads_variant_text htag).bind ?_)
    exact .of_remaining fun _ _ => (reads_relevant_content hcontentName hne).bind hknown

end Tagged

end OpGraph.Cbor
