import InlineArrays.Proofs.Scenario.UsedOnce

/-!
# Recorded forests

What building expressions records is a forest: the parts of an expression, then the expression.  The
placeholder of a conditional access is recorded between the receiver and the access, and recorded
once, however often the access mentions it.
-/

namespace InlineArrays

/-- Building the first expressions, one after the other and inside a conditional access with the
placeholder `outer`, records the second ones. -/
inductive Expr.Forest : Option Expr → List Expr → List Expr → Prop
  | nil {outer : Option Expr} : Forest outer [] []
  | append {outer : Option Expr} {roots roots' es es' : List Expr} : Forest outer roots es →
      Forest outer roots' es' → Forest outer (roots ++ roots') (es ++ es')
  | mention {placeholder : Expr} : placeholder.isPlaceholder →
      Forest (some placeholder) [placeholder] []
  | node {outer : Option Expr} {e : Expr} {es : List Expr} : e.isPlaceholder = false →
      Forest outer e.children es → Forest outer [e] (es ++ [e])
  | conditional {outer : Option Expr} {id id' : ExprId} {receiver access : Expr}
      {es es' : List Expr} : Forest outer [receiver] es →
      Forest (some (.placeholder id receiver)) [access] es' →
      Forest outer [.conditional id' receiver access]
        (es ++ .placeholder id receiver :: es' ++ [.conditional id' receiver access])

namespace MethodDraft

open Expr (Forest)

variable {α : Type} {outer : Option Expr} {start roots : List Expr}

/-- Since `start` the draft has recorded what building these expressions records. -/
def Grown (outer : Option Expr) (start roots : List Expr) (d : MethodDraft) : Prop :=
  ∃ es, d.body.exprs.toList = start ++ es ∧ Forest outer roots es

/-- Wherever it starts, `act` records what building these expressions records. -/
abbrev Grows (outer : Option Expr) (act : Build α) (roots : α → List Expr) : Prop :=
  ∀ start, Ensures (Grown outer start []) act fun a ↦ Grown outer start (roots a)

theorem grown_self (outer : Option Expr) (d : MethodDraft) : Grown outer d.body.exprs.toList [] d :=
  ⟨[], (List.append_nil _).symm, .nil⟩

theorem Grows.after {act : Build α} {more : α → List Expr} (h : Grows outer act more) :
    Ensures (Grown outer start roots) act fun a ↦ Grown outer start (roots ++ more a) := by
  rintro d a d' ⟨es, hes, hroots⟩ hrun
  obtain ⟨es', hes', hmore⟩ := h _ (grown_self outer d) hrun
  exact ⟨es ++ es', by rw [hes', hes, List.append_assoc], hroots.append hmore⟩

theorem resolve_keepsGrown (name : String) :
    Ensures (Grown outer start roots) (resolve name) fun _ ↦ Grown outer start roots :=
  resolve_keeps (fun _ _ hd ↦ hd) name

/-- Recording an expression whose children have been built. -/
theorem record_grown {make : ExprId → Expr}
    (hmake : ∀ id, (make id).isPlaceholder = false ∧ (make id).children = roots) :
    Ensures (Grown outer start roots) (record make) fun e ↦ Grown outer start [e] := by
  rintro d e d' ⟨es, hes, hroots⟩ hrun
  cases hrun
  obtain ⟨hplain, hchildren⟩ := hmake d.body.exprs.size
  refine ⟨es ++ [make d.body.exprs.size], ?_, .node hplain (hchildren ▸ hroots)⟩
  rw [Array.toList_push, hes, List.append_assoc]

theorem recordFields_grown (names : List String) (e : Expr) :
    Ensures (Grown outer start [e]) (onBody (·.recordFields e names)) fun e ↦
      Grown outer start [e] := by
  induction names generalizing e with
  | nil =>
    intro d e' d' hd hrun
    cases hrun
    exact hd
  | cons name names ih =>
    intro d e' d' hd hrun
    have hfield : Ensures (Grown outer start [e]) (record (.field · e name)) fun e ↦
        Grown outer start [e] := record_grown fun _ ↦ ⟨rfl, rfl⟩
    exact ih _ (hfield hd rfl) hrun

/-- A placeholder for the receiver `of` has been recorded right after building that. -/
def OpenedAfter (outer : Option Expr) (start : List Expr) (of placeholder : Expr)
    (d : MethodDraft) : Prop :=
  ∃ es id, placeholder = .placeholder id of ∧ d.body.exprs.toList = start ++ es ++ [placeholder] ∧
    Forest outer [of] es

theorem placeholder_opened {of : Expr} :
    Ensures (Grown outer start [of]) (record (.placeholder · of)) (OpenedAfter outer start of) := by
  rintro d placeholder d' ⟨es, hes, hof⟩ hrun
  cases hrun
  exact ⟨es, d.body.exprs.size, rfl, by rw [Array.toList_push, hes], hof⟩

theorem access_grown {of placeholder : Expr} {access : Build Expr}
    (haccess : placeholder.isPlaceholder → Grows (some placeholder) access fun e ↦ [e]) :
    Ensures (OpenedAfter outer start of placeholder)
      (do
        let access ← access
        record (.conditional · of access))
      fun e ↦ Grown outer start [e] := by
  rintro d e d' ⟨es, id, rfl, hes, hof⟩ hrun
  obtain ⟨⟨access, accessed⟩, haccessed, hrun⟩ := Except.bind_eq_ok.1 hrun
  cases hrun
  obtain ⟨es', hes', hforest⟩ := haccess rfl _ (grown_self _ d) haccessed
  rw [hes] at hes'
  refine ⟨_, ?_, .conditional hof hforest⟩
  rw [Array.toList_push, hes']
  simp only [List.append_assoc, List.cons_append, List.nil_append]

mutual

theorem term_grows (outer : Option Expr) (houter : ∀ e, outer = some e → e.isPlaceholder) :
    (t : Term) → Grows outer (term outer t) fun e ↦ [e]
  | .path text, start => by
    unfold term
    refine (variableNamed_keeps _).bind fun root ↦
      Ensures.bind (record_grown fun _ ↦ ?_) fun base ↦ recordFields_grown _ base
    exact ⟨rfl, rfl⟩
  | .field of _, start | .span of _, start | .fromEnd of, start => by
    unfold term
    exact (term_grows outer houter of start).bind fun _ ↦ record_grown fun _ ↦ ⟨rfl, rfl⟩
  | .int _, _ | .bool _, _ | .string _, _ => record_grown fun _ ↦ ⟨rfl, rfl⟩
  | .range first last, start => by
    unfold term rangeTerm
    have hbound (bound : Option Term) (h : ∀ t ∈ bound, Grows outer (term outer t) fun e ↦ [e]) :
        Grows outer
          (match bound with
            | some bound => some <$> term outer bound
            | none => pure none)
          Option.toList := by
      cases bound with
      | none => exact fun _ ↦ .pure fun _ hd ↦ hd
      | some bound => exact fun start ↦ Ensures.map (h bound rfl start)
    refine (hbound first ?_ start).bind fun _ ↦ (hbound last ?_).after.bind fun _ ↦
      record_grown fun _ ↦ ⟨rfl, rfl⟩
    · cases first with
      | none => exact nofun
      | some bound => exact fun t ht ↦ Option.some.inj ht ▸ term_grows outer houter bound
    · cases last with
      | none => exact nofun
      | some bound => exact fun t ht ↦ Option.some.inj ht ▸ term_grows outer houter bound
  | .default type, start | .call _ _ type, start => by
    unfold term
    exact (resolve_keepsGrown type).bind fun _ ↦ record_grown fun _ ↦ ⟨rfl, rfl⟩
  | .index of position, start => by
    unfold term
    exact (term_grows outer houter of start).bind fun _ ↦
      (term_grows outer houter position).after.bind fun _ ↦ record_grown fun _ ↦ ⟨rfl, rfl⟩
  | .element of args, start => by
    unfold term
    exact (term_grows outer houter of start).bind fun _ ↦
      (arguments_grow outer houter args).after.bind fun _ ↦ record_grown fun _ ↦ ⟨rfl, rfl⟩
  | .conditional of access, start => by
    unfold term
    exact (term_grows outer houter of start).bind fun _ ↦ placeholder_opened.bind fun placeholder ↦
      access_grown fun hplaceholder ↦
        term_grows (some placeholder) (fun _ he ↦ Option.some.inj he ▸ hplaceholder) access
  | .receiver, start => by
    unfold term
    split
    · rename_i placeholder
      exact .pure fun d ⟨es, hes, hnil⟩ ↦
        ⟨es ++ [], by rw [hes, List.append_nil], hnil.append (.mention (houter _ rfl))⟩
    · exact fun _ _ _ _ hrun ↦ nomatch hrun
termination_by structural t => t

theorem arguments_grow (outer : Option Expr) (houter : ∀ e, outer = some e → e.isPlaceholder) :
    (args : List (Argument Term)) → Grows outer (arguments outer args) (List.map (·.value))
  | [], _ => .pure fun _ hd ↦ hd
  | arg :: args, start => by
    unfold arguments
    exact (term_grows outer houter arg.value start).bind fun _ ↦
      (arguments_grow outer houter args).after.bind fun _ ↦ .pure fun _ hd ↦ hd
termination_by structural args => args

end

/-! ## Statements -/

/-- The draft has recorded what building the expressions of its statements records, and then
these. -/
def Planted (roots : List Expr) (d : MethodDraft) : Prop :=
  Grown none [] (d.body.statements.flatMap (·.exprs) ++ roots) d

theorem Planted.of_body {d d' : MethodDraft} (hexprs : d'.body.exprs = d.body.exprs)
    (hstatements : d'.body.statements = d.body.statements) (h : Planted roots d) :
    Planted roots d' := by
  rw [Planted, Grown, hexprs, hstatements]
  exact h

theorem term_planted (t : Term) :
    Ensures (Planted roots) (term none t) fun e ↦ Planted (roots ++ [e]) := by
  intro d e d' hd hrun
  rw [Planted, term_keepsStatements _ t rfl hrun, ← List.append_assoc]
  exact (term_grows none nofun t).after hd hrun

theorem arguments_planted (args : List (Argument Term)) :
    Ensures (Planted roots) (arguments none args) fun args ↦
      Planted (roots ++ args.map (·.value)) := by
  intro d args' d' hd hrun
  rw [Planted, arguments_keepStatements _ args rfl hrun, ← List.append_assoc]
  exact (arguments_grow none nofun args).after hd hrun

theorem Planted.append {d d' : MethodDraft} {s : Statement} (h : Planted roots d)
    (hs : s.exprs = roots) (hexprs : d'.body.exprs = d.body.exprs)
    (hstatements : d'.body.statements = d.body.statements ++ [s]) : Planted [] d' := by
  subst hs
  rw [Planted, Grown, hexprs, hstatements, List.flatMap_append, List.flatMap_singleton,
    List.append_nil]
  exact h

theorem append_plants {s : Statement} (hs : s.exprs = roots) :
    Ensures (Planted roots) (append s) fun _ ↦ Planted [] := by
  intro d a d' hd hrun
  cases hrun
  exact hd.append hs rfl rfl

theorem action_keepsPlanted : (a : Action) → Ensures (Planted []) (action a) fun _ ↦ Planted []
  | .expression value => (term_planted value).bind fun _ ↦ append_plants rfl
  | .assign target value | .compound target _ value => (term_planted target).bind fun _ ↦
      (term_planted value).bind fun _ ↦ append_plants rfl
  | .refLocal name readonly type init => by
    unfold action
    refine Ensures.bind (resolve_keeps (fun _ _ hd ↦ hd) type) fun _ ↦
      (term_planted init).bind fun _ ↦ Ensures.bind ?_ fun _ ↦
        bring_keepsWritten (fun _ _ ↦ Planted.of_body) _ _
    intro d bound d' hd hrun
    cases hrun
    exact hd.append rfl rfl rfl
  | .call callee args => (arguments_planted args).bind fun _ ↦ append_plants rfl
  | .ret none => append_plants rfl
  | .ret (some value) => (term_planted value).bind fun _ ↦ append_plants rfl

/-- The expressions of a method that has been built are the forest of those of its statements. -/
theorem method_forest {m : MethodDecl} {types : TypeTable} {draft : MethodDraft}
    (h : method m { types, body := { name := m.name } } = .ok ((), draft)) :
    Forest none (draft.body.statements.flatMap (·.exprs)) draft.body.exprs.toList := by
  have hkeeps : Ensures (Planted []) (method m) fun _ ↦ Planted [] :=
    method_keepsWritten (fun _ _ ↦ Planted.of_body) m action_keepsPlanted
  obtain ⟨es, hes, hforest⟩ := hkeeps ⟨[], rfl, .nil⟩ h
  rw [List.append_nil] at hforest
  rwa [hes]

end MethodDraft

end InlineArrays
