import OpGraph.Cbor.Values

/-!
What holds of everything that a reader gives, whatever the bytes are: bounds of numbers carry over
to the lists and records that hold them.
-/

namespace OpGraph.Cbor

variable {α β σ : Type} {P : α → Prop} {Q : β → Prop}

def Gives (read : Reader α) (P : α → Prop) : Prop :=
  ∀ bytes a rest, read bytes = some (a, rest) → P a

namespace Gives

theorem pure {a : α} (ha : P a) : Gives (Pure.pure a) P := by
  intro bytes a' rest h
  cases h
  exact ha

theorem fail : Gives Cbor.fail P := by
  intro bytes a rest h
  cases h

theorem any (read : Reader α) : Gives read fun _ => True :=
  fun _ _ _ _ => trivial

theorem bind {x : Reader α} {f : α → Reader β} (hx : Gives x P) (hf : ∀ a, P a → Gives (f a) Q) :
    Gives (x >>= f) Q := by
  intro bytes b rest h
  simp only [Bind.bind, StateT.bind, Option.bind_eq_some_iff, Prod.exists] at h
  obtain ⟨a, between, ha, hb⟩ := h
  exact hf a (hx bytes a between ha) between b rest hb

theorem after {x : Reader α} {f : α → Reader β} (hf : ∀ a, Gives (f a) Q) : Gives (x >>= f) Q :=
  (any x).bind fun a _ => hf a

theorem map {x : Reader α} {f : α → β} (hx : Gives x P) (hf : ∀ a, P a → Q (f a)) :
    Gives (do return f (← x)) Q :=
  hx.bind fun a ha => .pure (hf a ha)

/-! ### Numbers -/

theorem intIn (low high : Int) : Gives (Cbor.intIn low high) fun n => low ≤ n ∧ n ≤ high := by
  refine after fun fuel => after fun n => ?_
  split
  · next hn => exact .pure hn
  · exact .fail

theorem natBelow (limit : Nat) : Gives (Cbor.natBelow limit) (· < limit) :=
  (intIn _ _).map fun n hn => by omega

/-! ### Lists -/

theorem times {read : Reader α} (hread : Gives read P) (n : Nat) :
    Gives (Cbor.times read n) fun as => ∀ a ∈ as, P a := by
  induction n with
  | zero => exact .pure nofun
  | succ n ih =>
    exact hread.bind fun a ha => ih.map fun as has => List.forall_mem_cons.mpr ⟨ha, has⟩

theorem untilStop {read : Reader α} (hread : Gives read P) (fuel : Nat) :
    Gives (Cbor.untilStop read fuel) fun as => ∀ a ∈ as, P a := by
  induction fuel with
  | zero => exact .fail
  | succ fuel ih =>
    refine after fun h => ?_
    split
    · exact after fun _ => .pure nofun
    · exact hread.bind fun a ha => ih.map fun as has => List.forall_mem_cons.mpr ⟨ha, has⟩

theorem items {read : Reader α} (hread : Gives read P) (length : Option Nat) :
    Gives (Cbor.items read length) fun as => ∀ a ∈ as, P a := by
  cases length with
  | none => exact after fun fuel => hread.untilStop fuel
  | some n =>
    refine after fun left => ?_
    split
    · exact hread.times n
    · exact .fail

theorem forall_of_mapM {f : UInt8 → Option α} (hf : ∀ b a, f b = some a → P a) {bytes : Bytes} :
    ∀ {as : List α}, bytes.mapM f = some as → ∀ a ∈ as, P a := by
  induction bytes with
  | nil =>
    intro as h
    cases h
    exact nofun
  | cons b bytes ih =>
    intro as h
    simp only [List.mapM_cons, Option.bind_eq_bind, Option.bind_eq_some_iff, Option.pure_def,
      Option.some.injEq] at h
    obtain ⟨a, ha, rest, hrest, rfl⟩ := h
    exact List.forall_mem_cons.mpr ⟨hf b a ha, ih hrest⟩

theorem listOf {item : Item α} (hread : Gives item.read P)
    (hbyte : ∀ b a, item.ofByte b = some a → P a) :
    Gives (Cbor.listOf item) fun as => ∀ a ∈ as, P a := by
  refine after fun h => ?_
  split
  · next length => exact hread.items length
  · next length =>
    refine after fun parts => ?_
    simp only
    split
    · next values hvalues => exact .pure (forall_of_mapM hbyte hvalues)
    · exact .fail
  · exact .fail

theorem listOf_of {read : Reader α} (hread : Gives read P) :
    Gives (Cbor.listOf (.of read)) fun as => ∀ a ∈ as, P a :=
  listOf hread nofun

theorem nextItem {read : Reader α} (hread : Gives read P) (left : Rest) :
    Gives (Cbor.nextItem read left) fun x => P x.1 := by
  refine after fun h => ?_
  split
  · exact .fail
  · exact hread.map fun a ha => ha

theorem pairOf {first : Reader α} {second : Reader β} (hfirst : Gives first P)
    (hsecond : Gives second Q) : Gives (Cbor.pairOf first second) fun x => P x.1 ∧ Q x.2 := by
  refine after fun h => ?_
  split
  · refine (hfirst.nextItem _).bind fun x hx => ?_
    exact (hsecond.nextItem _).map fun y hy => ⟨hx, hy⟩
  · exact .fail

/-! ### Records -/

theorem once {read : Reader α} (hread : Gives read P) (field : Option α) :
    Gives (Cbor.once read field) fun field => ∀ a ∈ field, P a := by
  cases field with
  | none =>
    exact hread.map fun a ha b hb => Option.some.inj hb ▸ ha
  | some a => exact .fail

variable {I : σ → Prop} {step : Bytes → σ → Reader σ}

theorem fields (hstep : ∀ key s, I s → Gives (step key s) I) (length : Option Nat) {start : σ}
    (hstart : I start) : Gives (Cbor.fields step length start) I := by
  refine after fun left => ?_
  generalize left + 1 = fuel
  induction fuel generalizing length start with
  | zero => exact .fail
  | succ fuel ih =>
    refine after fun next => ?_
    split
    · exact .pure hstart
    · exact after fun key => (hstep key start hstart).bind fun s hs => ih _ hs

theorem record (hstep : ∀ key s, I s → Gives (step key s) I) {start : σ} (hstart : I start) :
    Gives (Cbor.record step start) I := by
  refine after fun h => ?_
  split
  · next length => exact fields hstep length hstart
  · exact .fail

end Gives

end OpGraph.Cbor
