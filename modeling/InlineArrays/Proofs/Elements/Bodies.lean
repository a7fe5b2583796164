import InlineArrays.Proofs.Elements.Locals
import InlineArrays.Proofs.Scenario.Recorded

/-!
# Bodies of writes to elements

Whatever windows a body has given its locals by some point, each of these locals stands for its
window by what the whole body says of it: a ref local is bound once, and a local for slices is given
nothing else.
-/

namespace InlineArrays.Context

variable {c : Context} {x : VariableId} {t t' : Tracking} {s : Statement} {e : Expr} {w : Window}

theorem window?_eq_some (h : c.window? x t e = some w) :
    (∃ id v, e = .var id v ∧ t.windows v = some w) ∨ c.whole? x e = some w := by
  unfold window? at h
  split at h
  · exact .inl ⟨_, _, rfl, h⟩
  · exact .inr h

theorem element?_eq_some {path : List Step} (h : c.element? x t e = some path) :
    ∃ id receiver position w i, e = .element id receiver [⟨position, none, .none⟩] ∧
      c.window? x t receiver = some w ∧ position.position? w.length = some i ∧
      path = w.element i := by
  unfold element? at h
  split at h
  · obtain ⟨w, hw, h⟩ := Option.bind_eq_some_iff.1 h
    obtain ⟨i, hi, rfl⟩ := Option.map_eq_some_iff.1 h
    exact ⟨_, _, _, w, i, rfl, hw, hi, rfl⟩
  · cases h

/-- What a tracked statement does, by its form. -/
inductive Tracks (c : Context) (x : VariableId) (t : Tracking) : Statement → Tracking → Prop
  | slice {id : ExprId} {v : VariableId} {value : Expr} {w : Window} :
    (c.method.var v).kind = .stackLocal →
      c.types.get (c.method.var v).type = .span TypeTable.int false → c.slice? x value = some w →
      Tracks c x t (.assign (.var id v) value)
        { t with windows := Function.update t.windows v (some w) }
  | write {id literal : ExprId} {receiver position : Expr} {n : Int64} {w : Window} {i : Nat} :
    c.window? x t receiver = some w → position.position? w.length = some i →
      Tracks c x t (.assign (.element id receiver [⟨position, none, .none⟩]) (.int literal n))
        { t with held := Function.update t.held (w.element i) n }
  | bind {v : VariableId} {init : Expr} {path : List Step} {w : Window} :
    (c.method.var v).kind = .refLocal false → c.Place x init path (c.method.var v).type →
      c.whole? x init = some w →
      Tracks c x t (.refLocal v init) { t with windows := Function.update t.windows v (some w) }

theorem tracks_of_track? (h : c.track? x t s = some t') : c.Tracks x t s t' := by
  unfold track? at h
  split at h
  · obtain ⟨w, hslice, h⟩ := Option.bind_eq_some_iff.1 h
    obtain ⟨⟨hkind, htype⟩, h⟩ := Option.ite_none_right_eq_some.1 h
    cases h
    exact .slice hkind htype hslice
  · obtain ⟨path, hpath, h⟩ := Option.bind_eq_some_iff.1 h
    obtain ⟨id, receiver, position, w, i, rfl, hw, hi, rfl⟩ := element?_eq_some hpath
    cases h
    exact .write hw hi
  · obtain ⟨⟨path, type⟩, hplace, h⟩ := Option.bind_eq_some_iff.1 h
    obtain ⟨w, hwhole, h⟩ := Option.bind_eq_some_iff.1 h
    obtain ⟨⟨hkind, htype⟩, h⟩ := Option.ite_none_right_eq_some.1 h
    cases h
    exact .bind hkind (htype ▸ place_of_placeIn? _ hplace) hwhole
  · cases h

/-- Every statement of a tracked body is tracked somewhere on the way. -/
theorem exists_tracks_of_mem {body : List Statement} (h : body.foldlM (c.track? x) t = some t')
    (hs : s ∈ body) : ∃ u u', c.Tracks x u s u' := by
  induction body generalizing t with
  | nil => cases hs
  | cons first body ih =>
    rw [List.foldlM_cons] at h
    obtain ⟨mid, hfirst, h⟩ := Option.bind_eq_some_iff.1 h
    rcases List.mem_cons.1 hs with rfl | hs
    · exact ⟨t, mid, tracks_of_track? hfirst⟩
    · exact ih h hs

/-- A method whose body is tracked and then returns an element. -/
structure TracksBody (c : Context) (x : VariableId) (t : Tracking) (body : List Statement)
    (value : Expr) (t' : Tracking) (path : List Step) : Prop where
  statements_eq : c.method.statements = body ++ [.ret (some value)]
  body : body.foldlM (c.track? x) t = some t'
  value : c.element? x t' value = some path

theorem exists_tracksBody {n : Int64} (h : c.readBack? x t c.method.statements = some n) :
    ∃ body value t' path, c.TracksBody x t body value t' path ∧ n = t'.held path := by
  unfold readBack? at h
  split at h
  · rename_i value hlast
    obtain ⟨t', hbody, h⟩ := Option.bind_eq_some_iff.1 h
    obtain ⟨path, hvalue, rfl⟩ := Option.map_eq_some_iff.1 h
    refine ⟨_, value, t', path, ⟨?_, hbody, hvalue⟩, rfl⟩
    exact (List.dropLast_append_getLast? _ hlast).symm
  · cases h

/-- Each window of a local is one that the local stands for. -/
def Tracking.Sound (c : Context) (x : VariableId) (t : Tracking) : Prop :=
  ∀ v w, t.windows v = some w → ∀ id, c.Gives x (.var id v) w

/-- A window that an expression gives is one that it stands for. -/
theorem Tracking.Sound.gives (ht : Tracking.Sound c x t) (h : c.window? x t e = some w) :
    c.Gives x e w := by
  rcases window?_eq_some h with ⟨id, v, rfl, hw⟩ | hwhole
  · exact ht v w hw id
  · exact .whole hwhole

/-- What a statement of a tracked method does: it gives a local a slice, writes an element of a window,
binds a ref local to an array, or returns an element. -/
inductive Edits (c : Context) (x : VariableId) : Statement → Prop
  | slice {id : ExprId} {v : VariableId} {value : Expr} {w : Window} :
    (c.method.var v).kind = .stackLocal →
      c.types.get (c.method.var v).type = .span TypeTable.int false → c.slice? x value = some w →
      c.Gives x (.var id v) w → Edits c x (.assign (.var id v) value)
  | write {id literal : ExprId} {receiver position : Expr} {n : Int64} {w : Window} {i : Nat} :
    c.Gives x receiver w → position.position? w.length = some i →
      Edits c x (.assign (.element id receiver [⟨position, none, .none⟩]) (.int literal n))
  | bind {v : VariableId} {init : Expr} {path : List Step} {w : Window} :
    (c.method.var v).kind = .refLocal false → c.Place x init path (c.method.var v).type →
      c.whole? x init = some w → Edits c x (.refLocal v init)
  | ret {id : ExprId} {receiver position : Expr} {w : Window} {i : Nat} :
    c.Gives x receiver w → position.position? w.length = some i →
      Edits c x (.ret (some (.element id receiver [⟨position, none, .none⟩])))

section

variable {first last : Tracking} {body : List Statement} {value : Expr} {path : List Step}
  (hbody : c.TracksBody x first body value last path)
include hbody

theorem TracksBody.mem_statements (hs : s ∈ body) : s ∈ c.method.statements := by
  rw [hbody.statements_eq]
  exact List.mem_append_left _ hs

/-- The value that a local for slices is first given is a slice. -/
theorem TracksBody.exists_firstAssignment {id : ExprId} {v : VariableId}
    (hs : .assign (.var id v) e ∈ body) :
    ∃ init w, c.method.firstAssignment? v = some init ∧ c.slice? x init = some w := by
  have hsome : (c.method.firstAssignment? v).isSome := by
    rw [Body.firstAssignment?, List.findSome?_isSome_iff]
    exact ⟨_, hbody.mem_statements hs, by simp⟩
  obtain ⟨init, hinit⟩ := Option.isSome_iff_exists.1 hsome
  obtain ⟨s', hs', hmatch⟩ := List.exists_of_findSome?_eq_some hinit
  rw [hbody.statements_eq, List.mem_append, List.mem_singleton] at hs'
  rcases hs' with hs' | rfl
  · obtain ⟨u, u', htracks⟩ := exists_tracks_of_mem hbody.body hs'
    cases htracks with
    | slice _ _ hslice =>
      obtain rfl := Option.some.inj (Option.ite_none_right_eq_some.1 hmatch).2
      exact ⟨_, _, hinit, hslice⟩
    | write => cases hmatch
    | bind => cases hmatch
  · cases hmatch

variable (horderly : c.method.Orderly)
include horderly

theorem Tracking.Sound.step (ht : Tracking.Sound c x t) (h : c.Tracks x t s t') (hs : s ∈ body) :
    Tracking.Sound c x t' := by
  have hupdate {v : VariableId} {w : Window} (hw : ∀ id, c.Gives x (.var id v) w) :
      Tracking.Sound c x { t with windows := Function.update t.windows v (some w) } := by
    intro v' w' hw' id
    dsimp only at hw'
    by_cases hv : v' = v
    · rw [hv, Function.update_self] at hw'
      obtain rfl := Option.some.inj hw'
      exact hv ▸ hw id
    · rw [Function.update_of_ne hv] at hw'
      exact ht v' w' hw' id
  cases h with
  | slice hkind htype hslice =>
    obtain ⟨init, first, hinit, hfirst⟩ := hbody.exists_firstAssignment hs
    exact hupdate fun id ↦ .slices hkind htype hinit hfirst
  | write => exact ht
  | bind hkind hplace hwhole =>
    have hinit := (horderly.refLocals _ _ (hbody.mem_statements hs)).2.1
    exact hupdate fun id ↦ .refLocal hkind hinit hplace hwhole

/-- From sound windows a stretch of the body leads to sound windows. -/
theorem Tracking.Sound.run {rest : List Statement} (ht : Tracking.Sound c x t) (hrest : rest ⊆ body)
    (h : rest.foldlM (c.track? x) t = some t') :
    Tracking.Sound c x t' ∧
      ∀ s ∈ rest, ∃ u u', Tracking.Sound c x u ∧ c.Tracks x u s u' := by
  induction rest generalizing t with
  | nil =>
    cases h
    exact ⟨ht, nofun⟩
  | cons s rest ih =>
    rw [List.foldlM_cons] at h
    obtain ⟨mid, hs, h⟩ := Option.bind_eq_some_iff.1 h
    have htracks := tracks_of_track? hs
    have hmid := ht.step hbody horderly htracks (hrest List.mem_cons_self)
    obtain ⟨hlast, hall⟩ := ih hmid (fun s hs ↦ hrest (List.mem_cons_of_mem _ hs)) h
    refine ⟨hlast, fun s' hs' ↦ ?_⟩
    rcases List.mem_cons.1 hs' with rfl | hs'
    · exact ⟨t, mid, ht, htracks⟩
    · exact hall s' hs'

/-- Every statement of a tracked method does one of four things, whatever came before it. -/
theorem TracksBody.edits (hfirst : Tracking.Sound c x first) (hs : s ∈ c.method.statements) :
    c.Edits x s := by
  obtain ⟨hlast, hall⟩ := hfirst.run hbody horderly (List.Subset.refl _) hbody.body
  rw [hbody.statements_eq, List.mem_append, List.mem_singleton] at hs
  rcases hs with hs | rfl
  · obtain ⟨u, u', hu, htracks⟩ := hall s hs
    cases htracks with
    | @slice id v value w hkind htype hvalue =>
      have hgives := hu.step hbody horderly (.slice hkind htype hvalue) hs
      exact .slice hkind htype hvalue (hgives v w (Function.update_self ..) id)
    | write hw hi => exact .write (hu.gives hw) hi
    | bind hkind hplace hwhole => exact .bind hkind hplace hwhole
  · obtain ⟨id, receiver, position, w, i, rfl, hw, hi, -⟩ := element?_eq_some hbody.value
    exact .ret (hlast.gives hw) hi

end

end InlineArrays.Context
