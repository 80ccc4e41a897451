import Mathlib.Algebra.Group.Nat.Defs
import OpGraph.Cbor.Reader
import OpGraph.Cbor.Writer
import OpGraph.Proofs.Bytes
import OpGraph.Word

/-!
What is written can be read. A reader takes exactly the bytes of an item off the front, whatever
follows them, so items that were written one after the other are read one after the other.
-/

namespace OpGraph

namespace Cbor

open Bytes

variable {α β : Type}

def Reads (read : Reader α) (bytes : Bytes) (a : α) : Prop :=
  ∀ rest, read (bytes ++ rest) = some (a, rest)

theorem bind_of_eq_some {x : Reader α} {f : α → Reader β} {a : α} {bytes rest : Bytes}
    (hx : x bytes = some (a, rest)) : (x >>= f) bytes = f a rest := by
  simp only [bind, StateT.bind, hx, Option.bind_some]

namespace Reads

theorem pure (a : α) : Reads (Pure.pure a) [] a :=
  fun _ => rfl

theorem bind {x : Reader α} {f : α → Reader β} {front back : Bytes} {a : α} {b : β}
    (hx : Reads x front a) (hf : Reads (f a) back b) : Reads (x >>= f) (front ++ back) b := by
  intro rest
  rw [List.append_assoc, bind_of_eq_some (hx _), hf]

theorem bind_pure {x : Reader α} {f : α → Reader β} {bytes : Bytes} {a : α} {b : β}
    (hx : Reads x bytes a) (hf : f a = return b) : Reads (x >>= f) bytes b := by
  intro rest
  rw [bind_of_eq_some (hx rest), hf]
  rfl

theorem map {x : Reader α} {f : α → β} {bytes : Bytes} {a : α} (hx : Reads x bytes a) :
    Reads (do return f (← x)) bytes (f a) :=
  hx.bind_pure rfl

theorem of_remaining {f : Nat → Reader α} {bytes : Bytes} {a : α}
    (hf : ∀ n, bytes.length ≤ n → Reads (f n) bytes a) : Reads (remaining >>= f) bytes a := by
  intro rest
  exact hf (bytes ++ rest).length (by rw [List.length_append]; omega) rest

theorem of_fuel {f : Nat → Reader α} {bytes : Bytes} {a : α} (hbytes : bytes ≠ [])
    (hf : ∀ fuel, Reads (f (fuel + 1)) bytes a) : Reads (remaining >>= f) bytes a := by
  refine of_remaining fun n hn => ?_
  have hpos := List.length_pos_iff.mpr hbytes
  obtain ⟨fuel, rfl⟩ := Nat.exists_eq_succ_of_ne_zero (Nat.ne_of_gt (Nat.lt_of_lt_of_le hpos hn))
  exact hf fuel

end Reads

theorem reads_take (bytes : Bytes) : Reads (take bytes.length) bytes bytes := by
  intro rest
  rw [take, if_pos (by rw [List.length_append]; omega), List.take_left, List.drop_left]

theorem reads_bigEndian {width n : Nat} (hn : n < 256 ^ width) :
    Reads (do return some (ofBigEndian (← take width))) (bigEndian width n) (some n) := by
  have htake := reads_take (bigEndian width n)
  rw [length_bigEndian] at htake
  have hread := htake.map (f := fun bytes => some (ofBigEndian bytes))
  rwa [ofBigEndian_bigEndian hn] at hread

/-! ### Headers -/

def headerOf (major n : Nat) : Header :=
  match major with
  | 0 => .positive n
  | 1 => .negative n
  | 2 => .bytes (some n)
  | 3 => .text (some n)
  | 4 => .list (some n)
  | 5 => .record (some n)
  | _ => .tag n

theorem head_cases (major : Nat) {n : Nat} (hn : n < Word.limit) : ∃ minor tail, minor < 32 ∧
    head major n = UInt8.ofNat (32 * major + minor) :: tail ∧
      Reads (argument minor) tail (some n) := by
  unfold head
  split
  · next h =>
    refine ⟨n, [], by omega, rfl, ?_⟩
    rw [argument, if_pos h]
    exact .pure _
  split
  · next h => exact ⟨24, bigEndian 1 n, by decide, rfl, reads_bigEndian h⟩
  split
  · next h => exact ⟨25, bigEndian 2 n, by decide, rfl, reads_bigEndian h⟩
  split
  · next h => exact ⟨26, bigEndian 4 n, by decide, rfl, reads_bigEndian h⟩
  · exact ⟨27, bigEndian 8 n, by decide, rfl, reads_bigEndian hn⟩

theorem head_ne_nil (major n : Nat) : head major n ≠ [] := by
  unfold head
  repeat' split
  all_goals exact List.cons_ne_nil _ _

def headerRest (major minor : Nat) : Reader Header :=
  match major with
  | 0 => do
    let some n ← argument minor | fail
    return .positive n
  | 1 => do
    let some n ← argument minor | fail
    return .negative n
  | 2 => return .bytes (← argument minor)
  | 3 => return .text (← argument minor)
  | 4 => return .list (← argument minor)
  | 5 => return .record (← argument minor)
  | 6 => do
    let some n ← argument minor | fail
    return .tag n
  | _ => otherHeader minor

theorem header_eq : header = take 1 >>= fun first =>
    headerRest (ofBigEndian first / 32) (ofBigEndian first % 32) := rfl

theorem reads_header_cons {major minor : Nat} {tail : Bytes} {h : Header} (hmajor : major < 8)
    (hminor : minor < 32) (hrest : Reads (headerRest major minor) tail h) :
    Reads header (UInt8.ofNat (32 * major + minor) :: tail) h := by
  have hfirst : ofBigEndian [UInt8.ofNat (32 * major + minor)] = 32 * major + minor := by
    rw [ofBigEndian_singleton, UInt8.toNat_ofNat']
    omega
  have hdiv : (32 * major + minor) / 32 = major := by omega
  have hmod : (32 * major + minor) % 32 = minor := by omega
  rw [header_eq]
  refine Reads.bind (reads_take [_]) ?_
  rwa [hfirst, hdiv, hmod]

theorem reads_header {major n : Nat} (hmajor : major < 7) (hn : n < Word.limit) :
    Reads header (head major n) (headerOf major n) := by
  obtain ⟨minor, tail, hminor, hhead, hargument⟩ := head_cases major hn
  rw [hhead]
  refine reads_header_cons (by omega) hminor ?_
  match major, hmajor with
  | 0, _ | 1, _ | 2, _ | 3, _ | 4, _ | 5, _ | 6, _ =>
    intro rest
    exact bind_of_eq_some (hargument rest)

theorem Reads.untagged {bytes : Bytes} {h : Header} (hread : Reads header bytes h)
    (hbytes : bytes ≠ []) (htag : ∀ n, h ≠ .tag n) : Reads untagged bytes h := by
  refine .of_fuel hbytes fun fuel rest => ?_
  rw [passTags, bind_of_eq_some (hread rest)]
  cases h with
  | tag n => exact (htag n rfl).elim
  | _ => rfl

theorem reads_untagged {major n : Nat} (hmajor : major < 6) (hn : n < Word.limit) :
    Reads untagged (head major n) (headerOf major n) := by
  refine (reads_header (by omega) hn).untagged (head_ne_nil major n) fun m => ?_
  match major, hmajor with
  | 0, _ | 1, _ | 2, _ | 3, _ | 4, _ | 5, _ => exact nofun

/-! ### Simple values -/

structure Decodes (read : Reader α) (bytes : Bytes) (a : α) : Prop where
  ne_nil : bytes ≠ []
  reads : bytes.length < Word.limit → Reads read bytes a

namespace Decodes

variable {read : Reader α} {bytes : Bytes} {a : α} {b : β}

theorem bind_pure (h : Decodes read bytes a) {f : α → Reader β} (hf : f a = return b) :
    Decodes (read >>= f) bytes b where
  ne_nil := h.ne_nil
  reads hlength := (h.reads hlength).bind_pure hf

theorem map (h : Decodes read bytes a) (f : α → β) (hb : f a = b) :
    Decodes (do return f (← read)) bytes b :=
  h.bind_pure (congrArg _ hb)

theorem once (h : Decodes read bytes a) (f : Option α → β) :
    Decodes (do return f (← once read none)) bytes (f (some a)) where
  ne_nil := h.ne_nil
  reads hlength rest := by
    have hsome : Cbor.once read none (bytes ++ rest) = some (some a, rest) := by
      simp only [Cbor.once, Functor.map, StateT.map, h.reads hlength rest]
      rfl
    rw [bind_of_eq_some hsome]
    rfl

end Decodes

theorem decodes_int {low high n : Int} (hlow : low ≤ n) (hhigh : n ≤ high)
    (hleast : -Word.limit ≤ low) (hgreatest : high < Word.limit) :
    Decodes (intIn low high) (writeInt n) n := by
  obtain ⟨h, hne, hheader, hvalue⟩ : ∃ h, writeInt n ≠ [] ∧ Reads header (writeInt n) h ∧
      (h = .positive n.toNat ∧ 0 ≤ n ∨ h = .negative (-1 - n).toNat ∧ n < 0) := by
    unfold writeInt
    split
    · next hn => exact ⟨_, head_ne_nil _ _, reads_header (by decide) (by omega), .inl ⟨rfl, hn⟩⟩
    · next hn =>
      exact ⟨_, head_ne_nil _ _, reads_header (by decide) (by omega), .inr ⟨rfl, by omega⟩⟩
  refine ⟨hne, fun _ => .of_fuel hne fun fuel => ?_⟩
  have hint : Reads (intPastTags (fuel + 1)) (writeInt n) n := by
    intro rest
    rw [intPastTags, bind_of_eq_some (hheader rest)]
    rcases hvalue with ⟨rfl, hn⟩ | ⟨rfl, hn⟩
    · change some ((n.toNat : Int), rest) = _
      rw [Int.toNat_of_nonneg hn]
    · change some (-1 - ((-1 - n).toNat : Int), rest) = _
      rw [Int.toNat_of_nonneg (by omega), Int.sub_sub_self]
  intro rest
  rw [bind_of_eq_some (hint rest), if_pos ⟨hlow, hhigh⟩]
  rfl

theorem utf8_ofText (s : String) : utf8 (ofText s) = return s := by
  rw [utf8, fromUTF8?_ofText]

theorem writeText_eq (s : String) : writeText s = head 3 (ofText s).length ++ ofText s := rfl

theorem writeText_ne_nil (s : String) : writeText s ≠ [] :=
  List.append_ne_nil_of_left_ne_nil (head_ne_nil _ _) _

theorem decodes_text (s : String) : Decodes text (writeText s) s where
  ne_nil := writeText_ne_nil s
  reads hlength := by
    have hcount : (ofText s).length < Word.limit := by
      rw [writeText_eq, List.length_append] at hlength
      omega
    refine Reads.bind (reads_untagged (by decide) hcount) ?_
    have hcontent : Reads (content true (some (ofText s).length)) (ofText s) [ofText s] :=
      (reads_take _).map
    intro rest
    refine (bind_of_eq_some (hcontent rest)).trans ?_
    rw [List.mapM_cons, utf8_ofText, pure_bind, List.mapM_nil, pure_bind, pure_bind]
    exact congrArg (fun joined => some (joined, rest)) String.empty_append

theorem reads_name {s : String} (hs : s.utf8ByteSize ≤ nameLimit) :
    Reads name (writeText s) (ofText s) := by
  rw [← length_ofText] at hs
  have hcount : (ofText s).length < Word.limit := Nat.lt_of_le_of_lt hs (by decide)
  rw [writeText_eq]
  refine Reads.bind (reads_untagged (by decide) hcount) ?_
  intro rest
  simp only [headerOf]
  rw [if_pos hs, bind_of_eq_some (reads_take _ rest), utf8_ofText]
  rfl

@[simp]
theorem isName_ofText (s t : String) : isName (ofText s) t = (s == t) := by
  rw [Bool.eq_iff_iff, isName, beq_iff_eq, beq_iff_eq]
  exact ⟨ofText_injective, fun h => h ▸ rfl⟩

theorem decodes_bool (b : Bool) : Decodes bool (writeBool b) b := by
  have hheader : Reads header (writeBool b) (.simple (if b then 21 else 20)) := by
    cases b with
    | false =>
      change Reads header [UInt8.ofNat (32 * 7 + 20)] _
      exact reads_header_cons (by decide) (by decide) fun _ => rfl
    | true =>
      change Reads header [UInt8.ofNat (32 * 7 + 21)] _
      exact reads_header_cons (by decide) (by decide) fun _ => rfl
  have hne : writeBool b ≠ [] := by cases b <;> exact List.cons_ne_nil _ _
  refine ⟨hne, fun _ rest => ?_⟩
  rw [bool, bind_of_eq_some (hheader.untagged hne nofun rest)]
  cases b <;> rfl

end Cbor

end OpGraph
