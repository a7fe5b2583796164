import InlineArrays.Machine.Execute

/-!
# Triples of the machine

What a computation of the machine does to memory is stated by a triple with two outcomes: from
memory that satisfies `pre` it ends with `post`, or fails with `fail`.  What it changed before it
failed stays changed, so `fail` is about memory too.
-/

namespace InlineArrays.Run

variable {α β : Type}

/-- What a computation goes on to from where its first step ends. -/
theorem bind_eq {act : Run α} {f : α → Run β} {a : α} {m m' : Memory} (h : act m = .ok a m') :
    (act >>= f) m = f a m' := by
  change EStateM.bind act f m = f a m'
  rw [EStateM.bind, h]

/-- A computation whose first step fails goes no further. -/
theorem bind_error {act : Run α} {f : α → Run β} {e : RuntimeError} {m m' : Memory}
    (h : act m = .error e m') : (act >>= f) m = .error e m' := by
  change EStateM.bind act f m = _
  rw [EStateM.bind, h]

theorem bind_eq_ok {act : Run α} {f : α → Run β} {m m'' : Memory} {b : β} :
    (act >>= f) m = .ok b m'' ↔ ∃ a m', act m = .ok a m' ∧ f a m' = .ok b m'' := by
  change EStateM.bind act f m = _ ↔ _
  cases h : act m with
  | ok a m' =>
    simp only [EStateM.bind, h, EStateM.Result.ok.injEq]
    exact ⟨fun hf ↦ ⟨a, m', ⟨rfl, rfl⟩, hf⟩, fun ⟨_, _, ⟨ha, hm⟩, hf⟩ ↦ ha ▸ hm ▸ hf⟩
  | error e m' => simp [EStateM.bind, h]

theorem pure_eq_ok {a b : α} {m m' : Memory} : (pure a : Run α) m = .ok b m' ↔ a = b ∧ m = m' := by
  change EStateM.Result.ok a m = _ ↔ _
  simp

def Triple (pre : Memory → Prop) (act : Run α) (post : α → Memory → Prop)
    (fail : RuntimeError → Memory → Prop) : Prop :=
  ∀ ⦃m : Memory⦄, pre m →
    match act m with
    | .ok a m => post a m
    | .error e m => fail e m

/-- What is left of memory by a computation, whether it succeeds or fails. -/
def after (act : Run α) (m : Memory) : Memory :=
  match act m with
  | .ok _ m | .error _ m => m

/-- A computation that keeps an invariant, whatever it yields. -/
abbrev Keeps (inv : Memory → Prop) (act : Run α) (fail : RuntimeError → Memory → Prop) : Prop :=
  Triple inv act (fun _ ↦ inv) fail

namespace Triple

variable {pre pre' : Memory → Prop} {fail fail' : RuntimeError → Memory → Prop}

theorem pure {a : α} {post : α → Memory → Prop} (h : ∀ m, pre m → post a m) :
    Triple pre (pure a) post fail := fun m hm ↦ h m hm

theorem throw {e : RuntimeError} {post : α → Memory → Prop} (h : ∀ m, pre m → fail e m) :
    Triple pre (throw e : Run α) post fail := fun m hm ↦ h m hm

theorem bind {act : Run α} {f : α → Run β} {mid : α → Memory → Prop} {post : β → Memory → Prop}
    (hact : Triple pre act mid fail) (hf : ∀ a, Triple (mid a) (f a) post fail) :
    Triple pre (act >>= f) post fail := by
  intro m hm
  change match EStateM.bind act f m with | .ok b m => post b m | .error e m => fail e m
  have hm' := hact hm
  unfold EStateM.bind
  cases h : act m with
  | ok a m' =>
    rw [h] at hm'
    exact hf a hm'
  | error e m' =>
    rw [h] at hm'
    exact hm'

theorem map {act : Run α} {f : α → β} {post : β → Memory → Prop}
    (hact : Triple pre act (fun a ↦ post (f a)) fail) : Triple pre (f <$> act) post fail := by
  intro m hm
  change match EStateM.map f act m with | .ok b m => post b m | .error e m => fail e m
  have hm' := hact hm
  unfold EStateM.map
  cases h : act m with
  | ok a m' =>
    rw [h] at hm'
    exact hm'
  | error e m' =>
    rw [h] at hm'
    exact hm'

theorem mono {act : Run α} {post post' : α → Memory → Prop} (h : Triple pre act post fail)
    (hpre : ∀ m, pre' m → pre m) (hpost : ∀ a m, post a m → post' a m)
    (hfail : ∀ e m, fail e m → fail' e m) : Triple pre' act post' fail' := by
  intro m hm
  have hm' := h (hpre m hm)
  cases hact : act m with
  | ok a m' =>
    rw [hact] at hm'
    exact hpost a m' hm'
  | error e m' =>
    rw [hact] at hm'
    exact hfail e m' hm'

/-- What is known of the memory a computation starts in may be used throughout. -/
theorem of_pre {act : Run α} {post : α → Memory → Prop} {p : Prop} (hpre : ∀ m, pre m → p)
    (h : p → Triple pre act post fail) : Triple pre act post fail := fun m hm ↦ h (hpre m hm) hm

theorem after {act : Run α} {post : α → Memory → Prop} {inv : Memory → Prop}
    (h : Triple pre act post fail) (hpost : ∀ a m, post a m → inv m)
    (hfail : ∀ e m, fail e m → inv m) {m : Memory} (hm : pre m) : inv (act.after m) := by
  have hend := h hm
  unfold Run.after
  cases hact : act m with
  | ok a m' =>
    rw [hact] at hend
    exact hpost a m' hend
  | error e m' =>
    rw [hact] at hend
    exact hfail e m' hend

theorem modify {change : Memory → Memory} {post : Unit → Memory → Prop}
    (h : ∀ m, pre m → post () (change m)) :
    Triple pre (modify change : Run Unit) post fail := fun m hm ↦ h m hm

/-- What follows a look at memory may depend on the memory that it finds. -/
theorem get_bind {f : Memory → Run α} {post : α → Memory → Prop}
    (h : ∀ m, pre m → Triple (· = m) (f m) post fail) :
    Triple pre ((get : Run Memory) >>= f) post fail := fun m hm ↦ h m hm rfl

theorem mapM {f : α → Run β} {inv : Memory → Prop} {l : List α}
    (hf : ∀ a ∈ l, Keeps inv (f a) fail) : Keeps inv (l.mapM f) fail := by
  induction l with
  | nil =>
    rw [List.mapM_nil]
    exact pure fun _ hm ↦ hm
  | cons a l ih =>
    rw [List.mapM_cons]
    exact (hf a (by simp)).bind fun b ↦
      (ih fun a ha ↦ hf a (List.mem_cons_of_mem _ ha)).bind fun bs ↦ pure fun _ hm ↦ hm

end Triple

end InlineArrays.Run
