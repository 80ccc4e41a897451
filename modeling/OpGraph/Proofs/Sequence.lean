import OpGraph.Failure

/-!
Sequences of steps that may fail: what is known of a whole run from what is known of its steps.
-/

namespace OpGraph

variable {ε α β γ : Type}

theorem bind_eq_ok_iff {x : Except ε α} {f : α → Except ε β} {b : β} :
    (x >>= f) = .ok b ↔ ∃ a, x = .ok a ∧ f a = .ok b := by
  cases x <;> simp [bind, Except.bind]

theorem ok_bind (a : α) (f : α → Except ε β) : (Except.ok a >>= f) = f a := rfl

theorem bind_succeeds {x : Except ε α} {f : α → Except ε β} (hx : ∃ a, x = .ok a)
    (hf : ∀ a, x = .ok a → ∃ b, f a = .ok b) : ∃ b, (x >>= f) = .ok b := by
  obtain ⟨a, rfl⟩ := hx
  exact hf a rfl

def FailsAs (P : ε → Prop) (x : Except ε α) : Prop :=
  ∀ e, x = .error e → P e

theorem failsAs_of_succeeds {P : ε → Prop} {x : Except ε α} (hx : ∃ a, x = .ok a) :
    FailsAs P x := by
  obtain ⟨a, rfl⟩ := hx
  intro e he
  cases he

theorem failsAs_ok {P : ε → Prop} {a : α} : FailsAs P (.ok a : Except ε α) :=
  failsAs_of_succeeds ⟨a, rfl⟩

theorem failsAs_bind {P : ε → Prop} {x : Except ε α} {f : α → Except ε β} (hx : FailsAs P x)
    (hf : ∀ a, x = .ok a → FailsAs P (f a)) : FailsAs P (x >>= f) := by
  cases x with
  | ok a => exact hf a rfl
  | error e =>
    intro e' he'
    cases he'
    exact hx e rfl

theorem failsAs_foldlM {P : ε → Prop} {f : β → α → Except ε β} (l : List α)
    (hf : ∀ s, ∀ a ∈ l, FailsAs P (f s a)) (s : β) : FailsAs P (l.foldlM f s) := by
  induction l generalizing s with
  | nil => exact failsAs_ok
  | cons a l ih =>
    rw [List.foldlM_cons]
    apply failsAs_bind (hf s a List.mem_cons_self)
    intro s' _
    exact ih (fun s a ha => hf s a (List.mem_cons_of_mem _ ha)) s'

theorem failsAs_foldlM_of_keeps {P : ε → Prop} {Q : β → Prop} {f : β → α → Except ε β} (l : List α)
    (hkeeps : ∀ a ∈ l, ∀ s s', Q s → f s a = .ok s' → Q s')
    (hf : ∀ a ∈ l, ∀ s, Q s → FailsAs P (f s a)) {s : β} (hs : Q s) : FailsAs P (l.foldlM f s) := by
  induction l generalizing s with
  | nil => exact failsAs_ok
  | cons a l ih =>
    rw [List.forall_mem_cons] at hkeeps hf
    rw [List.foldlM_cons]
    exact failsAs_bind (hf.1 s hs) fun s' hs' => ih hkeeps.2 hf.2 (hkeeps.1 s s' hs hs')

theorem failsAs_map {P : ε → Prop} {x : Except ε α} (hx : FailsAs P x) (f : α → β) :
    FailsAs P (f <$> x) := by
  cases x with
  | ok a => exact failsAs_ok
  | error e =>
    intro e' he'
    cases he'
    exact hx e rfl

theorem failsAs_mapM {P : ε → Prop} {f : α → Except ε β} {l : List α}
    (hf : ∀ a ∈ l, FailsAs P (f a)) : FailsAs P (l.mapM f) := by
  induction l with
  | nil => exact failsAs_ok
  | cons a l ih =>
    rw [List.mapM_cons]
    rw [List.forall_mem_cons] at hf
    exact failsAs_bind hf.1 fun _ _ => failsAs_bind (ih hf.2) fun _ _ => failsAs_ok

theorem failsAs_ofFault {P : Failure ε → Prop} {x : Except Fault α}
    (hx : FailsAs (fun f => P (.fault f)) x) : FailsAs P (Failure.ofFault x) := by
  cases x with
  | ok a => exact failsAs_ok
  | error f =>
    intro e he
    cases he
    exact hx f rfl

theorem map_eq_ok_iff {x : Except ε α} {f : α → β} {b : β} :
    (f <$> x) = .ok b ↔ ∃ a, x = .ok a ∧ f a = b := by
  cases x <;> simp [Functor.map, Except.map]

theorem pure_eq_ok_iff {a b : α} : (pure a : Except ε α) = .ok b ↔ a = b := by
  simp [pure, Except.pure]

theorem eq_ok_of_mem_toOption {x : Except ε α} {a : α} (h : a ∈ x.toOption) : x = .ok a := by
  cases x <;> cases h
  rfl

theorem ofFault_eq_ok_iff {x : Except Fault α} {a : α} :
    (Failure.ofFault x : Except (Failure ε) α) = .ok a ↔ x = .ok a := by
  cases x <;> simp [Failure.ofFault]

theorem stateful_bind_eq_ok_iff {σ : Type} {x : EStateM ε σ α} {f : α → EStateM ε σ β} {s s' : σ}
    {b : β} : (x >>= f) s = .ok b s' ↔ ∃ a s₁, x s = .ok a s₁ ∧ f a s₁ = .ok b s' := by
  simp only [bind, EStateM.bind]
  cases x s with
  | error e s₁ => simp
  | ok a s₁ =>
    constructor
    · exact fun hrun => ⟨a, s₁, rfl, hrun⟩
    · rintro ⟨a', s', heq, hrun⟩
      cases heq
      exact hrun

theorem stateful_get_bind {σ : Type} (f : σ → EStateM ε σ β) (s : σ) : (get >>= f) s = f s s := rfl

theorem stateful_pure_bind {σ : Type} (a : α) (f : α → EStateM ε σ β) (s : σ) :
    (pure a >>= f) s = f a s := rfl

theorem stateful_bind_of_ok {σ : Type} {x : EStateM ε σ α} {s s₁ : σ} {a : α}
    (hx : x s = .ok a s₁) (f : α → EStateM ε σ β) : (x >>= f) s = f a s₁ := by
  simp only [bind, EStateM.bind, hx]

theorem stateful_bind_eq_error_iff {σ : Type} {x : EStateM ε σ α} {f : α → EStateM ε σ β}
    {s s' : σ} {e : ε} : (x >>= f) s = .error e s' ↔
      x s = .error e s' ∨ ∃ a s₁, x s = .ok a s₁ ∧ f a s₁ = .error e s' := by
  simp only [bind, EStateM.bind]
  cases x s with
  | error e s₁ => simp
  | ok a s₁ =>
    constructor
    · exact fun hrun => .inr ⟨a, s₁, rfl, hrun⟩
    · rintro (hrun | ⟨a', s', heq, hrun⟩)
      · cases hrun
      · cases heq
        exact hrun

theorem foldlM_keeps {f : β → α → Except ε β} {P : β → Prop} (l : List α)
    (hstep : ∀ a ∈ l, ∀ s s', P s → f s a = .ok s' → P s') :
    ∀ s s', P s → l.foldlM f s = .ok s' → P s' := by
  induction l with
  | nil =>
    intro s s' hs hrun
    rw [List.foldlM_nil, pure_eq_ok_iff] at hrun
    exact hrun ▸ hs
  | cons a l ih =>
    intro s s' hs hrun
    rw [List.foldlM_cons, bind_eq_ok_iff] at hrun
    obtain ⟨s₁, hs₁, hrest⟩ := hrun
    apply ih (fun b hb => hstep b (List.mem_cons_of_mem a hb)) s₁ s' _ hrest
    exact hstep a List.mem_cons_self s s₁ hs hs₁

theorem foldlM_step_ok {f : β → α → Except ε β} {l : List α} {s s' : β}
    (hrun : l.foldlM f s = .ok s') {a : α} (ha : a ∈ l) : ∃ t t', f t a = .ok t' := by
  induction l generalizing s with
  | nil => cases ha
  | cons b l ih =>
    rw [List.foldlM_cons, bind_eq_ok_iff] at hrun
    obtain ⟨s₁, hs₁, hrest⟩ := hrun
    obtain rfl | ha := List.mem_cons.mp ha
    · exact ⟨s, s₁, hs₁⟩
    · exact ih hrest ha

theorem foldlM_succeeds {f : β → α → Except ε β} {P : List α → β → Prop} (l : List α)
    (hstep : ∀ done a rest s, l = done ++ a :: rest → P done s →
      ∃ s', f s a = .ok s' ∧ P (done ++ [a]) s') :
    ∀ s, P [] s → ∃ s', l.foldlM f s = .ok s' ∧ P l s' := by
  -- The steps that are done move from the front of the list into the index of `P`.
  suffices ∀ rest done s, l = done ++ rest → P done s →
      ∃ s', rest.foldlM f s = .ok s' ∧ P l s' from fun s hs => this l [] s rfl hs
  intro rest
  induction rest with
  | nil =>
    intro done s hl hs
    rw [List.append_nil] at hl
    exact ⟨s, rfl, hl ▸ hs⟩
  | cons a rest ih =>
    intro done s hl hs
    obtain ⟨s₁, hs₁, hP⟩ := hstep done a rest s hl hs
    obtain ⟨s', hs', hP'⟩ := ih (done ++ [a]) s₁ (by simp [hl]) hP
    refine ⟨s', ?_, hP'⟩
    rw [List.foldlM_cons, bind_eq_ok_iff]
    exact ⟨s₁, hs₁, hs'⟩

theorem filterAuxM_succeeds {p : α → Except ε Bool} {l : List α}
    (hp : ∀ a ∈ l, ∃ b, p a = .ok b) (kept : List α) :
    ∃ l' : List α, l.filterAuxM p kept = .ok (l'.reverse ++ kept) ∧ l'.Sublist l ∧
      ∀ a, a ∈ l' ↔ a ∈ l ∧ p a = .ok true := by
  induction l generalizing kept with
  | nil => exact ⟨[], rfl, .refl [], by simp⟩
  | cons a l ih =>
    obtain ⟨b, hb⟩ := hp a List.mem_cons_self
    obtain ⟨l', hl', hsub, hmem⟩ :=
      ih (fun a ha => hp a (List.mem_cons_of_mem _ ha)) (cond b (a :: kept) kept)
    unfold List.filterAuxM
    rw [hb, ok_bind, hl']
    cases b with
    | true =>
      refine ⟨a :: l', by simp, hsub.cons_cons a, ?_⟩
      intro a'
      rw [List.mem_cons, List.mem_cons, hmem]
      grind
    | false =>
      refine ⟨l', rfl, hsub.cons a, ?_⟩
      intro a'
      rw [List.mem_cons, hmem]
      grind

theorem filterM_succeeds {p : α → Except ε Bool} {l : List α}
    (hp : ∀ a ∈ l, ∃ b, p a = .ok b) :
    ∃ l', l.filterM p = .ok l' ∧ l'.Sublist l ∧ ∀ a, a ∈ l' ↔ a ∈ l ∧ p a = .ok true := by
  obtain ⟨l', hl', hsub, hmem⟩ := filterAuxM_succeeds hp []
  refine ⟨l', ?_, hsub, hmem⟩
  unfold List.filterM
  rw [hl', ok_bind, List.append_nil, List.reverse_reverse]
  rfl

theorem stateful_foldlM_succeeds {σ : Type} {f : β → α → EStateM ε σ β}
    {P : List α → β → σ → Prop} (l : List α)
    (hstep : ∀ done a rest b s, l = done ++ a :: rest → P done b s →
      ∃ b' s', f b a s = .ok b' s' ∧ P (done ++ [a]) b' s') :
    ∀ b s, P [] b s → ∃ b' s', l.foldlM f b s = .ok b' s' ∧ P l b' s' := by
  suffices ∀ rest done b s, l = done ++ rest → P done b s →
      ∃ b' s', rest.foldlM f b s = .ok b' s' ∧ P l b' s' from fun b s hs => this l [] b s rfl hs
  intro rest
  induction rest with
  | nil =>
    intro done b s hl hs
    rw [List.append_nil] at hl
    exact ⟨b, s, rfl, hl ▸ hs⟩
  | cons a rest ih =>
    intro done b s hl hs
    obtain ⟨b₁, s₁, hs₁, hP⟩ := hstep done a rest b s hl hs
    obtain ⟨b', s', hs', hP'⟩ := ih (done ++ [a]) b₁ s₁ (by simp [hl]) hP
    refine ⟨b', s', ?_, hP'⟩
    rw [List.foldlM_cons, stateful_bind_eq_ok_iff]
    exact ⟨b₁, s₁, hs₁, hs'⟩

theorem mapM_succeeds_with {f : α → Except ε β} {P : β → Prop} {l : List α}
    (h : ∀ a ∈ l, ∃ b, f a = .ok b ∧ P b) : ∃ bs, l.mapM f = .ok bs ∧ ∀ b ∈ bs, P b := by
  induction l with
  | nil => exact ⟨[], rfl, by simp⟩
  | cons a l ih =>
    rw [List.forall_mem_cons] at h
    obtain ⟨b, hb, hP⟩ := h.1
    obtain ⟨bs, hbs, hPs⟩ := ih h.2
    refine ⟨b :: bs, ?_, List.forall_mem_cons.mpr ⟨hP, hPs⟩⟩
    rw [List.mapM_cons, hb, hbs]
    rfl

theorem mapM_succeeds {f : α → Except ε β} {l : List α} (h : ∀ a ∈ l, ∃ b, f a = .ok b) :
    ∃ bs, l.mapM f = .ok bs := by
  have hwith : ∀ a ∈ l, ∃ b, f a = .ok b ∧ True :=
    fun a ha => (h a ha).imp fun _ hb => ⟨hb, trivial⟩
  obtain ⟨bs, hbs, -⟩ := mapM_succeeds_with hwith
  exact ⟨bs, hbs⟩

theorem mapM_eq_pure {m : Type → Type} [Monad m] [LawfulMonad m] {f : α → m β} {k : α → β}
    {l : List α} (h : ∀ a ∈ l, f a = pure (k a)) : l.mapM f = pure (l.map k) := by
  induction l with
  | nil => rfl
  | cons a l ih =>
    rw [List.forall_mem_cons] at h
    rw [List.mapM_cons, h.1, pure_bind, ih h.2, pure_bind, List.map_cons]

theorem mapM_eq_map {f : α → Except ε β} {k : α → β} {l : List α} (h : ∀ a ∈ l, f a = .ok (k a)) :
    l.mapM f = .ok (l.map k) :=
  mapM_eq_pure h

theorem foldlM_eq_foldl {f : β → α → Except ε β} {k : β → α → β} {l : List α}
    (h : ∀ s, ∀ a ∈ l, f s a = .ok (k s a)) (s : β) : l.foldlM f s = .ok (l.foldl k s) := by
  induction l generalizing s with
  | nil => rfl
  | cons a l ih =>
    rw [List.foldlM_cons, h s a List.mem_cons_self, ok_bind, List.foldl_cons]
    exact ih (fun s a ha => h s a (List.mem_cons_of_mem _ ha)) (k s a)

theorem mapM_perm {f : α → Except ε β} {l l' : List α} (hperm : l.Perm l') {bs : List β}
    (hrun : l.mapM f = .ok bs) : ∃ bs', l'.mapM f = .ok bs' ∧ bs.Perm bs' := by
  induction hperm generalizing bs with
  | nil => exact ⟨bs, hrun, .refl bs⟩
  | cons a _ ih =>
    simp only [List.mapM_cons, bind_eq_ok_iff, pure_eq_ok_iff] at hrun ⊢
    obtain ⟨b, hb, rest, hrest, rfl⟩ := hrun
    obtain ⟨rest', hrest', hperm'⟩ := ih hrest
    exact ⟨b :: rest', ⟨b, hb, rest', hrest', rfl⟩, hperm'.cons b⟩
  | swap a a' l =>
    simp only [List.mapM_cons, bind_eq_ok_iff, pure_eq_ok_iff] at hrun ⊢
    obtain ⟨b', hb', _, ⟨b, hb, rest, hrest, rfl⟩, rfl⟩ := hrun
    exact ⟨b :: b' :: rest, ⟨b, hb, _, ⟨b', hb', rest, hrest, rfl⟩, rfl⟩, .swap b b' rest⟩
  | trans _ _ ih ih' =>
    obtain ⟨bs', hrun', hperm'⟩ := ih hrun
    obtain ⟨bs'', hrun'', hperm''⟩ := ih' hrun'
    exact ⟨bs'', hrun'', hperm'.trans hperm''⟩

end OpGraph
