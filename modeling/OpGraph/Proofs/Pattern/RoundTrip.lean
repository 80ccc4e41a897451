import OpGraph.Proofs.Cbor.Gives
import OpGraph.Proofs.Cbor.Values
import OpGraph.Proofs.Pattern.Valid

/-!
A pattern that is written and read again is the same pattern. The writer, the reader and the checks
that follow it agree on everything that a builder makes and on everything that was read before.
-/

namespace OpGraph

open Cbor Bytes

/-! ### Entries -/

namespace PatternKind

variable {α : Type} {f : Single → Single}

theorem decodes_id {id : PatternId} (hid : id.index < UInt32.size) :
    Decodes readId (writeId id) id :=
  (decodes_nat hid (by decide)).map Handle.mk rfl

theorem decodes_ids {ids : List PatternId} (hids : ∀ id ∈ ids, id.index < UInt32.size) :
    Decodes (listOf idItem) (writeList writeId ids) ids :=
  decodes_list fun id hid => decodes_id (hids id hid)

theorem decodes_text_variant {tag : String} {known : Bytes → Reader α} {a : α}
    (htag : tag.utf8ByteSize ≤ nameLimit) (hknown : known (ofText tag) = return a) :
    Decodes (variant >>= known) (writeText tag) a where
  ne_nil := writeText_ne_nil tag
  reads _ rest := by
    rw [bind_of_eq_some (reads_variant_text htag rest), hknown]
    rfl

theorem decodes_variant {tag : String} {content : Bytes} {known : Bytes → Reader α} {a : α}
    (htag : tag.utf8ByteSize ≤ nameLimit) (hcontent : Decodes (known (ofText tag)) content a) :
    Decodes (variant >>= known) (writeVariant tag content) a where
  ne_nil := writeRecord_ne_nil _
  reads hlength := by
    have hbytes : writeVariant tag content = head 5 1 ++ writeText tag ++ content := by
      simp [writeVariant, writeRecord]
    rw [hbytes] at hlength ⊢
    rw [List.length_append] at hlength
    exact (reads_variant_record htag).bind (hcontent.reads (by omega))

def singles : PatternKind → List Single
  | node _ _ _ attrs => attrs.flatMap fun attr => attr.2.singles
  | _ => []

def mapSingles (f : Single → Single) : PatternKind → PatternKind
  | node key operands optional attrs =>
    node key operands optional (attrs.map fun attr => (attr.1, attr.2.mapSingles f))
  | kind => kind

theorem singles_mapSingles (f : Single → Single) (kind : PatternKind) :
    (kind.mapSingles f).singles = kind.singles.map f := by
  cases kind with
  | node key operands optional attrs =>
    simp only [mapSingles, singles, List.flatMap_map, List.map_flatMap, Attr.singles_mapSingles]
  | wildcard | constant | graphInput | commutable | anyOf | allOf => rfl

theorem mapSingles_id (kind : PatternKind) : kind.mapSingles id = kind := by
  cases kind with
  | node key operands optional attrs => simp [mapSingles, Attr.mapSingles_id]
  | wildcard | constant | graphInput | commutable | anyOf | allOf => rfl

theorem decodes_node {key : OpKey} {operands : List PatternId} {optional : List Bool}
    {attrs : List (String × Attr)} (hids : ∀ id ∈ operands, id.index < UInt32.size)
    (hattrs : ∀ attr ∈ attrs, ∀ x ∈ attr.2.singles, Decodes single (writeSingle x) (f x)) :
    Decodes readNode (writeRecord [
      ("op_type", writeText key.opType),
      ("domain", writeText key.domain),
      ("operands", writeList writeId operands),
      ("optional", writeList writeBool optional),
      ("attrs", writeList (fun attr => head 4 2 ++ writeText attr.1 ++ attr.2.toCbor) attrs)])
      (mapSingles f (node key operands optional attrs)) := by
  have hoptional : Decodes (listOf (.of bool)) (writeList writeBool optional) optional :=
    decodes_list fun b _ => decodes_bool b
  have hattrs : Decodes (listOf (.of (pairOf text Attr.ofCbor)))
      (writeList (fun attr => head 4 2 ++ writeText attr.1 ++ attr.2.toCbor) attrs)
      (attrs.map fun attr => (attr.1, attr.2.mapSingles f)) :=
    decodes_map fun attr hattr => (decodes_text attr.1).pair (Attr.decodes (hattrs attr hattr))
  have hfields : FieldsRead nodeStep ⟨none, none, none, none, none⟩ _
      ⟨some key.opType, some key.domain, some operands, some optional,
        some (attrs.map fun attr => (attr.1, attr.2.mapSingles f))⟩ :=
    .once "op_type" (fun s x => { s with opType := x }) (by decide) (by simp [nodeStep])
      (decodes_text key.opType) <|
    .once "domain" (fun s x => { s with domain := x }) (by decide) (by simp [nodeStep])
      (decodes_text key.domain) <|
    .once "operands" (fun s x => { s with operands := x }) (by decide) (by simp [nodeStep])
      (decodes_ids hids) <|
    .once "optional" (fun s x => { s with optional := x }) (by decide) (by simp [nodeStep])
      hoptional <|
    .once "attrs" (fun s x => { s with attrs := x }) (by decide) (by simp [nodeStep]) hattrs <|
    .nil _
  refine ⟨writeRecord_ne_nil _, fun hlength => ?_⟩
  have hheader := reads_header (by decide : 5 < 7) (length_fields_lt hlength)
  exact hheader.bind ((hfields.reads_fields hlength).bind_pure rfl)

theorem decodes_pair {key : OpKey} {lhs rhs : PatternId} (hlhs : lhs.index < UInt32.size)
    (hrhs : rhs.index < UInt32.size) :
    Decodes readPair (writeRecord [
      ("op_type", writeText key.opType),
      ("domain", writeText key.domain),
      ("lhs", writeId lhs),
      ("rhs", writeId rhs)]) (commutable key lhs rhs) := by
  have hfields : FieldsRead pairStep ⟨none, none, none, none⟩ _
      ⟨some key.opType, some key.domain, some lhs, some rhs⟩ :=
    .once "op_type" (fun s x => { s with opType := x }) (by decide) (by simp [pairStep])
      (decodes_text key.opType) <|
    .once "domain" (fun s x => { s with domain := x }) (by decide) (by simp [pairStep])
      (decodes_text key.domain) <|
    .once "lhs" (fun s x => { s with lhs := x }) (by decide) (by simp [pairStep])
      (decodes_id hlhs) <|
    .once "rhs" (fun s x => { s with rhs := x }) (by decide) (by simp [pairStep])
      (decodes_id hrhs) <|
    .nil _
  refine ⟨writeRecord_ne_nil _, fun hlength => ?_⟩
  have hheader := reads_header (by decide : 5 < 7) (length_fields_lt hlength)
  exact hheader.bind ((hfields.reads_fields hlength).bind_pure rfl)

theorem decodes {kind : PatternKind} (hids : ∀ id ∈ kind.children, id.index < UInt32.size)
    (hsingles : ∀ x ∈ kind.singles, Decodes single (writeSingle x) (f x)) :
    Decodes ofCbor kind.toCbor (kind.mapSingles f) := by
  cases kind with
  | wildcard => exact decodes_text_variant (by decide) (by rw [nameText?_ofText]; rfl)
  | constant => exact decodes_text_variant (by decide) (by rw [nameText?_ofText]; rfl)
  | graphInput => exact decodes_text_variant (by decide) (by rw [nameText?_ofText]; rfl)
  | node key operands optional attrs =>
    refine decodes_variant (by decide) ?_
    rw [nameText?_ofText]
    refine decodes_node hids fun attr hattr x hx => hsingles x ?_
    exact List.mem_flatMap.mpr ⟨attr, hattr, hx⟩
  | commutable key lhs rhs =>
    refine decodes_variant (by decide) ?_
    rw [nameText?_ofText]
    exact decodes_pair (hids lhs (by simp [children])) (hids rhs (by simp [children]))
  | anyOf items =>
    refine decodes_variant (by decide) ?_
    rw [nameText?_ofText]
    exact (decodes_ids hids).map anyOf rfl
  | allOf items =>
    refine decodes_variant (by decide) ?_
    rw [nameText?_ofText]
    exact (decodes_ids hids).map allOf rfl

end PatternKind

/-! ### Blobs -/

namespace PatternBlob

/-- All numbers of a blob fit the words that hold them. -/
structure Fits (b : PatternBlob) : Prop where
  version_lt : b.version < UInt32.size
  root_lt : b.root.index < UInt32.size
  kinds_lt : ∀ kind ∈ b.kinds, ∀ id ∈ kind.children, id.index < UInt32.size
  names_lt : ∀ x ∈ b.names, x.1.index < UInt32.size

variable {b : PatternBlob} {f : Single → Single}

theorem decodes (hb : b.Fits)
    (hsingles : ∀ kind ∈ b.kinds, ∀ x ∈ kind.singles, Decodes single (writeSingle x) (f x)) :
    Decodes reader b.toBytes { b with kinds := b.kinds.map (PatternKind.mapSingles f) } := by
  have hkinds : Decodes (listOf (.of PatternKind.ofCbor)) (writeList PatternKind.toCbor b.kinds)
      (b.kinds.map (PatternKind.mapSingles f)) :=
    decodes_map fun kind hkind => PatternKind.decodes (hb.kinds_lt kind hkind) (hsingles kind hkind)
  have hnames : Decodes (listOf (.of (pairOf PatternKind.readId text)))
      (writeList (fun x => head 4 2 ++ PatternKind.writeId x.1 ++ writeText x.2) b.names) b.names :=
    decodes_list fun x hx => (PatternKind.decodes_id (hb.names_lt x hx)).pair (decodes_text x.2)
  have hfields : FieldsRead step ⟨none, none, none, none, none⟩ _
      ⟨some b.format, some b.version, some b.root, some (b.kinds.map (PatternKind.mapSingles f)),
        some b.names⟩ :=
    .once "format" (fun s x => { s with format := x }) (by decide) (by simp [step])
      (decodes_text b.format) <|
    .once "version" (fun s x => { s with version := x }) (by decide) (by simp [step])
      (decodes_nat hb.version_lt (by decide)) <|
    .once "root" (fun s x => { s with root := x }) (by decide) (by simp [step])
      (PatternKind.decodes_id hb.root_lt) <|
    .once "kinds" (fun s x => { s with kinds := x }) (by decide) (by simp [step]) hkinds <|
    .once "names" (fun s x => { s with names := x }) (by decide) (by simp [step]) hnames <|
    .nil _
  exact hfields.decodes_record.bind_pure rfl

theorem ofBytes?_toBytes_map (hb : b.Fits)
    (hsingles : ∀ kind ∈ b.kinds, ∀ x ∈ kind.singles, Decodes single (writeSingle x) (f x))
    (hlength : b.toBytes.length < Word.limit) :
    ofBytes? b.toBytes = some { b with kinds := b.kinds.map (PatternKind.mapSingles f) } := by
  have hread := (decodes hb hsingles).reads hlength []
  rw [List.append_nil] at hread
  rw [ofBytes?, hread]
  rfl

theorem ofBytes?_toBytes (hb : b.Fits)
    (hsingles : ∀ kind ∈ b.kinds, ∀ x ∈ kind.singles, x.isNaN = false)
    (hlength : b.toBytes.length < Word.limit) : ofBytes? b.toBytes = some b := by
  have hsame : b.kinds.map (PatternKind.mapSingles id) = b.kinds :=
    (List.map_congr_left fun kind _ => kind.mapSingles_id).trans (List.map_id _)
  have hfloats : ∀ kind ∈ b.kinds, ∀ x ∈ kind.singles, Decodes single (writeSingle x) (id x) :=
    fun kind hkind x hx => decodes_single (hsingles kind hkind x hx)
  rw [ofBytes?_toBytes_map hb hfloats hlength, hsame]

end PatternBlob

/-! ### Reading gives numbers that fit -/

namespace PatternKind

theorem gives_readId : Gives readId (·.index < UInt32.size) :=
  (Gives.natBelow _).map fun _ hn => hn

theorem gives_ids : Gives (listOf idItem) fun ids => ∀ id ∈ ids, id.index < UInt32.size := by
  refine gives_readId.listOf fun b id hid => ?_
  cases hid
  exact Nat.lt_trans b.toNat_lt (by decide)

def NodeFields.Fit (f : NodeFields) : Prop :=
  ∀ ids ∈ f.operands, ∀ id ∈ ids, id.index < UInt32.size

theorem gives_nodeStep (key : Bytes) {f : NodeFields} (hf : f.Fit) :
    Gives (nodeStep key f) NodeFields.Fit := by
  unfold nodeStep
  split
  · exact .after fun _ => .pure hf
  split
  · exact .after fun _ => .pure hf
  split
  · exact (gives_ids.once _).map fun _ hids => hids
  split
  · exact .after fun _ => .pure hf
  split
  · exact .after fun _ => .pure hf
  · exact .after fun _ => .pure hf

theorem gives_readNode :
    Gives readNode fun kind => ∀ id ∈ kind.children, id.index < UInt32.size := by
  have hstart : NodeFields.Fit ⟨none, none, none, none, none⟩ := by simp [NodeFields.Fit]
  refine .after fun h => ?_
  split
  · next length =>
    refine (Gives.fields (fun key _ => gives_nodeStep key) length hstart).bind fun f hf => ?_
    split
    · exact .pure (hf _ rfl)
    · exact .fail
  · refine .after fun _ => .after fun _ => (gives_ids.nextItem _).bind fun x hx => ?_
    exact .after fun _ => .after fun _ => .pure hx
  · exact .fail

structure PairFields.Fit (f : PairFields) : Prop where
  lhs_lt : ∀ id ∈ f.lhs, id.index < UInt32.size
  rhs_lt : ∀ id ∈ f.rhs, id.index < UInt32.size

theorem gives_pairStep (key : Bytes) {f : PairFields} (hf : f.Fit) :
    Gives (pairStep key f) PairFields.Fit := by
  unfold pairStep
  split
  · exact .after fun _ => .pure ⟨hf.lhs_lt, hf.rhs_lt⟩
  split
  · exact .after fun _ => .pure ⟨hf.lhs_lt, hf.rhs_lt⟩
  split
  · exact (gives_readId.once _).map fun _ hid => ⟨hid, hf.rhs_lt⟩
  split
  · exact (gives_readId.once _).map fun _ hid => ⟨hf.lhs_lt, hid⟩
  · exact .after fun _ => .pure hf

theorem gives_readPair :
    Gives readPair fun kind => ∀ id ∈ kind.children, id.index < UInt32.size := by
  have hpair : ∀ (key : OpKey) {lhs rhs : PatternId}, lhs.index < UInt32.size →
      rhs.index < UInt32.size → ∀ id ∈ (commutable key lhs rhs).children,
        id.index < UInt32.size := by
    intro key lhs rhs hlhs hrhs
    simp [children, hlhs, hrhs]
  have hstart : PairFields.Fit ⟨none, none, none, none⟩ := ⟨by simp, by simp⟩
  refine .after fun h => ?_
  split
  · next length =>
    refine (Gives.fields (fun key _ => gives_pairStep key) length hstart).bind fun f hf => ?_
    split
    · exact .pure (hpair _ (hf.lhs_lt _ rfl) (hf.rhs_lt _ rfl))
    · exact .fail
  · refine .after fun _ => .after fun _ => (gives_readId.nextItem _).bind fun x hx => ?_
    exact (gives_readId.nextItem _).bind fun y hy => .pure (hpair _ hx hy)
  · exact .fail

theorem gives_ofCbor :
    Gives ofCbor fun kind => ∀ id ∈ kind.children, id.index < UInt32.size := by
  refine .after fun tag => ?_
  split
  · exact .pure nofun
  · exact .pure nofun
  · exact .pure nofun
  · exact gives_readNode
  · exact gives_readPair
  · exact gives_ids.map fun _ hids => hids
  · exact gives_ids.map fun _ hids => hids
  · exact .fail

end PatternKind

namespace PatternBlob

structure Fields.Fit (f : Fields) : Prop where
  version_lt : ∀ version ∈ f.version, version < UInt32.size
  root_lt : ∀ root ∈ f.root, root.index < UInt32.size
  kinds_lt : ∀ kinds ∈ f.kinds, ∀ kind ∈ kinds, ∀ id ∈ kind.children, id.index < UInt32.size
  names_lt : ∀ names ∈ f.names, ∀ x ∈ names, x.1.index < UInt32.size

theorem gives_step (key : Bytes) {f : Fields} (hf : f.Fit) : Gives (step key f) Fields.Fit := by
  unfold step
  split
  · exact .after fun _ => .pure ⟨hf.version_lt, hf.root_lt, hf.kinds_lt, hf.names_lt⟩
  split
  · exact ((Gives.natBelow _).once _).map fun _ h => ⟨h, hf.root_lt, hf.kinds_lt, hf.names_lt⟩
  split
  · exact (PatternKind.gives_readId.once _).map fun _ h =>
      ⟨hf.version_lt, h, hf.kinds_lt, hf.names_lt⟩
  split
  · have hkinds := PatternKind.gives_ofCbor.listOf_of
    exact (hkinds.once _).map fun _ h => ⟨hf.version_lt, hf.root_lt, h, hf.names_lt⟩
  split
  · have hnames := (PatternKind.gives_readId.pairOf (.any text)).listOf_of
    exact (hnames.once _).map fun _ h =>
      ⟨hf.version_lt, hf.root_lt, hf.kinds_lt, fun names hmem x hx => (h names hmem x hx).1⟩
  · exact .after fun _ => .pure hf

theorem gives_reader : Gives reader Fits := by
  have hstart : Fields.Fit ⟨none, none, none, none, none⟩ := ⟨by simp, by simp, by simp, by simp⟩
  refine (Gives.record (fun key _ => gives_step key) hstart).bind fun f hf => ?_
  split
  · exact .pure ⟨hf.version_lt _ rfl, hf.root_lt _ rfl, hf.kinds_lt _ rfl, hf.names_lt _ rfl⟩
  · exact .fail

end PatternBlob

/-! ### Patterns -/

namespace Pattern

variable {p : Pattern}

theorem mem_names_toBlob_iff {x : PatternId × String} :
    x ∈ p.toBlob.names ↔ p.names[x.1.index]? = some (some x.2) := by
  simp only [toBlob, List.mem_filterMap, Prod.exists, List.mem_zipIdx_iff_getElem?,
    Array.getElem?_toList, Option.map_eq_some_iff]
  constructor
  · rintro ⟨_, i, hget, name, rfl, rfl⟩
    exact hget
  · intro hget
    exact ⟨_, _, hget, x.2, rfl, rfl⟩

theorem Valid.names_apart (hp : p.Valid) : p.toBlob.names.Pairwise PatternBlob.NamesApart := by
  rw [toBlob, List.pairwise_filterMap, List.pairwise_iff_getElem]
  intro i j hi hj hij x hx y hy
  simp only [List.getElem_zipIdx, Nat.zero_add, Option.map_eq_some_iff] at hx hy
  obtain ⟨name, hname, rfl⟩ := hx
  obtain ⟨name', hname', rfl⟩ := hy
  constructor
  · intro heq
    exact Nat.ne_of_lt hij (congrArg Handle.index heq)
  · rintro rfl
    rw [Array.getElem_toList, Array.getElem_eq_iff] at hname hname'
    exact Nat.ne_of_lt hij (hp.names_unique i j name hname hname')

theorem Valid.sound_toBlob (hp : p.Valid) : p.toBlob.Sound where
  root_lt := by simpa [toBlob, size] using hp.root_lt
  kinds_proper i kind hkind := hp.kinds_proper ⟨i⟩ kind (by simpa [toBlob] using hkind)
  names_inside x hx := by
    have hlt := (Array.getElem?_eq_some_iff.mp (mem_names_toBlob_iff.mp hx)).1
    rwa [hp.names_size] at hlt
  names_apart := hp.names_apart

theorem Valid.toPattern_toBlob (hp : p.Valid) : p.toBlob.toPattern = p := by
  have hsound := hp.sound_toBlob
  have hnames : p.toBlob.toPattern.names = p.names := by
    apply Array.ext_getElem?
    intro i
    have hplaced : p.toBlob.toPattern.names[i]? =
        (p.toBlob.names.foldl PatternBlob.place (Array.replicate p.size none))[i]? := rfl
    rw [hplaced]
    cases hget : p.names[i]?.join with
    | some name =>
      have hmem : ((⟨i⟩, name) : PatternId × String) ∈ p.toBlob.names :=
        mem_names_toBlob_iff.mpr (Option.join_eq_some_iff.mp hget)
      rw [PatternBlob.getElem?_foldl_place_of_mem hp.names_apart hmem]
      · exact (Option.join_eq_some_iff.mp hget).symm
      · rw [Array.size_replicate]
        exact hsound.names_inside _ hmem
    | none =>
      rw [PatternBlob.getElem?_foldl_place_of_not_mem]
      · rw [Array.getElem?_replicate]
        grind [hp.names_size]
      · rintro x hx rfl
        rw [mem_names_toBlob_iff.mp hx] at hget
        cases hget
  exact Pattern.mk.injEq .. ▸ ⟨rfl, hnames, rfl⟩

theorem Valid.fits_toBlob (hp : p.Valid) (hsize : p.size ≤ UInt32.size) : p.toBlob.Fits where
  version_lt := (by decide : PatternBlob.formatVersion < UInt32.size)
  root_lt := Nat.lt_of_lt_of_le hp.root_lt hsize
  kinds_lt kind hkind id hid := by
    obtain ⟨i, hget⟩ := List.mem_iff_getElem?.mp hkind
    have hlt := (List.getElem?_eq_some_iff.mp hget).1
    have hchild := (hp.sound_toBlob.kinds_proper i kind hget).children_lt id hid
    exact Nat.lt_of_lt_of_le (Nat.lt_trans hchild hlt) hsize
  names_lt x hx := Nat.lt_of_lt_of_le (hp.sound_toBlob.names_inside x hx) hsize

theorem fits_of_ofBytes {bytes : Bytes} (h : ofBytes bytes = .ok p) : p.toBlob.Fits := by
  obtain ⟨b, hblob, hsound, rfl⟩ := ofBytes_eq_ok h
  obtain ⟨⟨_, rest⟩, hread, rfl⟩ := Option.map_eq_some_iff.mp hblob
  have hfits := PatternBlob.gives_reader _ _ _ hread
  exact {
    version_lt := (by decide : PatternBlob.formatVersion < UInt32.size)
    root_lt := hfits.root_lt
    kinds_lt := hfits.kinds_lt
    names_lt := fun x hx => hfits.names_lt x
      (PatternBlob.mem_names_of_getElem? hsound (mem_names_toBlob_iff.mp hx)) }

theorem Obtained.fits (hp : p.Obtained) : p.toBlob.Fits := by
  cases hp with
  | built hrun h =>
    have hsound := PatternBuilder.sound_of_runAll hrun
    refine (hsound.valid h).fits_toBlob ?_
    obtain ⟨-, rfl⟩ := PatternBuilder.freeze_eq_ok h
    exact hsound.size_le
  | read h => exact fits_of_ofBytes h

/-- No `NaN` stands among the attribute constraints, be it alone, in a list or in a tensor. -/
def NaNFree (p : Pattern) : Prop :=
  ∀ kind ∈ p.kinds.toList, ∀ x ∈ kind.singles, x.isNaN = false

instance (p : Pattern) : Decidable p.NaNFree :=
  inferInstanceAs (Decidable (∀ kind ∈ p.kinds.toList, ∀ x ∈ kind.singles, x.isNaN = false))

theorem read_toBytes (hp : p.Obtained) (hnan : p.NaNFree)
    (hlength : p.toBytes.length < Word.limit) : ofBytes p.toBytes = .ok p := by
  have hread := PatternBlob.ofBytes?_toBytes hp.fits hnan hlength
  have hflaw : p.toBlob.flaw? = none := PatternBlob.flaw?_eq_none_iff.mpr hp.valid.sound_toBlob
  unfold ofBytes
  simp only [toBytes, hread]
  rw [if_neg (by simp [toBlob]), if_neg (by simp [toBlob]), hflaw]
  exact congrArg Except.ok hp.valid.toPattern_toBlob

theorem eq_of_toBytes {q : Pattern} (hp : p.Obtained) (hnan : p.NaNFree) (hq : q.Obtained)
    (hlength : p.toBytes.length < Word.limit) (heq : q.toBytes = p.toBytes) : q = p := by
  have hlength' : q.toBytes.length < Word.limit := heq ▸ hlength
  -- Floats that are read as no `NaN`s were none when they were written.
  have hnan' : q.NaNFree := by
    choose f hf hsame using exists_decodes_single
    have hread := PatternBlob.ofBytes?_toBytes_map hq.fits (fun _ _ x _ => hf x) hlength'
    rw [show q.toBlob.toBytes = p.toBlob.toBytes from heq,
      PatternBlob.ofBytes?_toBytes hp.fits hnan hlength] at hread
    have hkinds : p.kinds.toList = q.kinds.toList.map (PatternKind.mapSingles f) :=
      congrArg PatternBlob.kinds (Option.some.inj hread)
    intro kind hkind x hx
    rw [← hsame x]
    apply hnan (kind.mapSingles f)
    · rw [hkinds]
      exact List.mem_map_of_mem hkind
    · rw [PatternKind.singles_mapSingles]
      exact List.mem_map_of_mem hx
  have hread := read_toBytes hq hnan' hlength'
  rw [heq, read_toBytes hp hnan hlength] at hread
  exact (Except.ok.inj hread).symm

/--
A pattern without `NaN`s is read back as it was written: its root, entries and names are the same,
so it reaches, hashes and matches the same. The length of its blob is a word, like every length.
-/
theorem ofBytes_toBytes (hp : p.Obtained) (hnan : p.NaNFree)
    (hlength : p.toBytes.length < Word.limit) :
    ∃ q, ofBytes p.toBytes = .ok q ∧ q = p ∧ q.reachable = p.reachable ∧
      q.fingerprint = p.fingerprint ∧ ∀ g arg, q.matchArg g arg = p.matchArg g arg :=
  ⟨p, read_toBytes hp hnan hlength, rfl, rfl, rfl, fun _ _ => rfl⟩

def sharedCalls : List BuilderCall :=
  [.wildcard, .constant,
    .node (.standard "Gemm") [(⟨0⟩, false), (⟨1⟩, false), (⟨1⟩, true)]
      [("beta", .float ⟨0x3f000000⟩), ("alpha", .floats [⟨0x80000000⟩, ⟨0x3dcccccd⟩]),
        ("shape", .tensor ⟨[2], .int64 [-1, 300]⟩)],
    .graphInput, .commutable (.standard "Add") ⟨2⟩ ⟨3⟩, .anyOf [⟨4⟩, ⟨2⟩], .allOf [⟨5⟩, ⟨0⟩],
    .named ⟨2⟩ "gemm"]

theorem ofBytes_toBytes_shared :
    ∃ (b : PatternBuilder) (p q : Pattern),
      BuilderCall.runAll sharedCalls .empty = .ok b ∧
      b.freeze ⟨6⟩ = .ok p ∧ p.NaNFree ∧ p.toBytes.length < Word.limit ∧
      ofBytes p.toBytes = .ok q ∧ q = p ∧ q.reachable = p.reachable ∧
      q.fingerprint = p.fingerprint ∧ ∀ g arg, q.matchArg g arg = p.matchArg g arg := by
  have hrun : (do
      let b ← BuilderCall.runAll sharedCalls .empty
      let p ← b.freeze ⟨6⟩
      return decide (p.NaNFree ∧ p.toBytes.length < Word.limit)) = .ok true := by decide +kernel
  obtain ⟨b, hb, hrun⟩ := bind_eq_ok_iff.mp hrun
  obtain ⟨p, hp, hrun⟩ := bind_eq_ok_iff.mp hrun
  obtain ⟨hnan, hlength⟩ := of_decide_eq_true (pure_eq_ok_iff.mp hrun)
  obtain ⟨q, hq⟩ := ofBytes_toBytes (.built hb hp) hnan hlength
  exact ⟨b, p, q, hb, hp, hnan, hlength, hq⟩

end Pattern

end OpGraph
