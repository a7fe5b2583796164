import InlineArrays.Proofs.Parts
import InlineArrays.Proofs.Scenario.Recorded
import Mathlib.Data.List.Basic

/-!
# Reachable expressions

An expression is reachable from a statement if it is one of the statement's, or a child of one that is
reachable.  The receiver of a placeholder is a child of it that is not one of its parts; but a
placeholder is built inside the conditional access on its receiver only, so in a body that is built
from a scenario whatever is reachable is used.
-/

namespace InlineArrays

namespace Expr

variable {e child : Expr}

theorem sizeOf_lt_of_mem_children (h : child ∈ e.children) : sizeOf child < sizeOf e := by
  cases e with
  | field | span | fromEnd | placeholder =>
    obtain rfl := List.mem_singleton.1 h
    simp +arith
  | range id start stop =>
    rcases List.mem_append.1 h with h | h
    · obtain rfl := Option.mem_toList.1 h
      simp +arith
    · obtain rfl := Option.mem_toList.1 h
      simp +arith
  | element id receiver args =>
    rcases List.mem_cons.1 h with rfl | h
    · simp +arith
    · obtain ⟨⟨value, name, modifier⟩, harg, rfl⟩ := List.mem_map.1 h
      have hlt := List.sizeOf_lt_of_mem harg
      simp only [Argument.mk.sizeOf_spec, element.sizeOf_spec] at hlt ⊢
      omega
  | conditional id receiver access =>
    simp only [children, List.mem_cons, List.not_mem_nil, or_false] at h
    rcases h with rfl | rfl <;> simp +arith
  | _ => cases h

/-- The parts of anything but a placeholder are those of its children. -/
theorem parts_eq (h : e.isPlaceholder = false) : e.parts = e :: e.children.flatMap parts := by
  cases e with
  | field => simp [parts_field, children]
  | span => simp [parts_span, children]
  | fromEnd => simp [parts_fromEnd, children]
  | conditional => simp [parts_conditional, children]
  | range id start stop => cases start <;> cases stop <;> simp [parts_range, children]
  | element id receiver args => simp [parts_element, children, List.flatMap_map]
  | placeholder => cases h
  | _ => rfl

theorem parts_placeholder (id : ExprId) (receiver : Expr) :
    (placeholder id receiver).parts = [.placeholder id receiver] := rfl

theorem parts_subset_of_mem_children (h : e.isPlaceholder = false) (hchild : child ∈ e.children) :
    child.parts ⊆ e.parts := by
  rw [parts_eq h]
  exact fun part hpart ↦ List.mem_cons_of_mem _ (List.mem_flatMap.2 ⟨child, hchild, hpart⟩)

/-- What a part is made of, the whole is made of. -/
theorem parts_subset (e : Expr) {part : Expr} (h : part ∈ e.parts) : part.parts ⊆ e.parts := by
  cases he : e.isPlaceholder with
  | true =>
    cases e with
    | placeholder id receiver =>
      rw [parts_placeholder, List.mem_singleton] at h
      rw [h]
      exact List.Subset.refl _
    | _ => cases he
  | false =>
    rw [parts_eq he] at h
    rcases List.mem_cons.1 h with rfl | h
    · exact List.Subset.refl _
    · obtain ⟨child, hchild, hpart⟩ := List.mem_flatMap.1 h
      exact List.Subset.trans (child.parts_subset hpart) (parts_subset_of_mem_children he hchild)
termination_by sizeOf e
decreasing_by exact sizeOf_lt_of_mem_children hchild

/-! ## Placeholders -/

/-- With each placeholder but the outer one an expression contains the receiver that it stands for. -/
def Anchored (outer : Option Expr) (e : Expr) : Prop :=
  ∀ id receiver, .placeholder id receiver ∈ e.parts →
    outer = some (.placeholder id receiver) ∨ receiver ∈ e.parts

variable {outer : Option Expr}

theorem anchored_of_children (he : e.isPlaceholder = false)
    (h : ∀ child ∈ e.children, child.Anchored outer) : e.Anchored outer := by
  intro id receiver hpart
  rw [parts_eq he] at hpart
  rcases List.mem_cons.1 hpart with rfl | hpart
  · cases he
  · obtain ⟨child, hchild, hpart⟩ := List.mem_flatMap.1 hpart
    exact (h child hchild id receiver hpart).imp_right
      fun hmem ↦ parts_subset_of_mem_children he hchild hmem

/-- The placeholder of a conditional access is anchored by the receiver of the access. -/
theorem anchored_conditional {id id' : ExprId} {receiver access : Expr}
    (hreceiver : receiver.Anchored outer)
    (haccess : access.Anchored (some (.placeholder id' receiver))) :
    (conditional id receiver access).Anchored outer := by
  intro id'' receiver' hpart
  rw [parts_conditional] at hpart ⊢
  have hmem {part : Expr} (hpart : part ∈ receiver.parts ∨ part ∈ access.parts) :
      part ∈ Expr.conditional id receiver access :: (receiver.parts ++ access.parts) :=
    List.mem_cons_of_mem _ (List.mem_append.2 hpart)
  rcases List.mem_cons.1 hpart with hpart | hpart
  · cases hpart
  · rcases List.mem_append.1 hpart with hpart | hpart
    · exact (hreceiver id'' receiver' hpart).imp_right fun h ↦ hmem (.inl h)
    · rcases haccess id'' receiver' hpart with hplaceholder | h
      · cases hplaceholder
        exact .inr (hmem (.inl receiver.mem_parts_self))
      · exact .inr (hmem (.inr h))

theorem anchored_placeholder (id : ExprId) (receiver : Expr) :
    (placeholder id receiver).Anchored (some (.placeholder id receiver)) := by
  intro id' receiver' hpart
  rw [parts_placeholder, List.mem_singleton] at hpart
  exact .inl (by rw [hpart])

end Expr

namespace MethodDraft

open Expr (Anchored)

variable {α β : Type} {outer : Option Expr}

/-- Whatever the draft, the result of `act` has the property. -/
def Yields (act : Build α) (P : α → Prop) : Prop := ∀ ⦃d a d'⦄, act d = .ok (a, d') → P a

namespace Yields

variable {P : α → Prop} {Q : β → Prop} {act : Build α}

theorem pure {a : α} (h : P a) : Yields (Pure.pure a) P := by
  intro d a' d' hrun
  cases hrun
  exact h

theorem bind {f : α → Build β} (hact : Yields act P) (hf : ∀ a, P a → Yields (f a) Q) :
    Yields (act >>= f) Q := by
  intro d b d' hrun
  obtain ⟨⟨a, mid⟩, hfirst, hsecond⟩ := Except.bind_eq_ok.1 hrun
  exact hf a (hact hfirst) hsecond

theorem map {f : α → β} (hact : Yields act fun a ↦ Q (f a)) : Yields (f <$> act) Q := by
  intro d b d' hrun
  obtain ⟨⟨a, mid⟩, hfirst, hsecond⟩ := Except.bind_eq_ok.1 hrun
  cases hsecond
  exact hact hfirst

theorem bound {act : Build Expr} (hact : Yields act (Anchored outer)) :
    Yields (some <$> act) fun bound ↦ ∀ e ∈ bound, e.Anchored outer :=
  map fun d e d' hrun ↦ by simpa using hact hrun

theorem any (act : Build α) : Yields act fun _ ↦ True := fun _ _ _ _ ↦ trivial

/-- Recording what is made of anchored expressions. -/
theorem record {make : ExprId → Expr} (hmake : ∀ id, (make id).isPlaceholder = false)
    (hparts : ∀ id, ∀ child ∈ (make id).children, child.Anchored outer) :
    Yields (record make) (Anchored outer) := by
  intro d e d' hrun
  cases hrun
  exact Expr.anchored_of_children (hmake _) (hparts _)

theorem recordFields {e : Expr} (he : e.Anchored outer) (names : List String) :
    Yields (onBody (·.recordFields e names)) (Anchored outer) := by
  induction names generalizing e with
  | nil =>
    intro d e' d' hrun
    cases hrun
    exact he
  | cons name names ih =>
    have hfield (id : ExprId) : (Expr.field id e name).Anchored outer :=
      Expr.anchored_of_children rfl (by simpa [Expr.children] using he)
    exact fun d e' d' hrun ↦ ih (hfield d.body.exprs.size) (d := ⟨_, _, _⟩) hrun

end Yields

mutual

theorem term_anchored (receiver : Option Expr)
    (hreceiver : ∀ e, receiver = some e → e.Anchored receiver) :
    (t : Term) → Yields (term receiver t) (Anchored receiver)
  | .path _ => (Yields.any _).bind fun _ _ ↦
      (Yields.record (fun _ ↦ rfl) (by simp [Expr.children])).bind fun _ hbase ↦
        Yields.recordFields hbase _
  | .field of _ => (term_anchored receiver hreceiver of).bind fun of hof ↦
      .record (fun _ ↦ rfl) (by simpa [Expr.children] using hof)
  | .int _ | .bool _ | .string _ => .record (fun _ ↦ rfl) (by simp [Expr.children])
  | .fromEnd count => (term_anchored receiver hreceiver count).bind fun count hcount ↦
      .record (fun _ ↦ rfl) (by simpa [Expr.children] using hcount)
  | .range start stop => by
    unfold term rangeTerm
    have hstart : Yields (match start with
        | some bound => some <$> term receiver bound
        | none => pure none) fun bound ↦ ∀ e ∈ bound, e.Anchored receiver := by
      cases start with
      | none => exact .pure nofun
      | some bound => exact (term_anchored receiver hreceiver bound).bound
    have hstop : Yields (match stop with
        | some bound => some <$> term receiver bound
        | none => pure none) fun bound ↦ ∀ e ∈ bound, e.Anchored receiver := by
      cases stop with
      | none => exact .pure nofun
      | some bound => exact (term_anchored receiver hreceiver bound).bound
    refine hstart.bind fun first hfirst ↦ hstop.bind fun last hlast ↦
      .record (fun _ ↦ rfl) fun _ child hchild ↦ ?_
    simp only [Expr.children, List.mem_append, Option.mem_toList] at hchild
    exact hchild.elim (hfirst child) (hlast child)
  | .default _ | .call .. => (Yields.any _).bind fun _ _ ↦
      .record (fun _ ↦ rfl) (by simp [Expr.children])
  | .index of position => (term_anchored receiver hreceiver of).bind fun of hof ↦
      (term_anchored receiver hreceiver position).bind fun position hposition ↦
        .record (fun _ ↦ rfl) (by simp [Expr.children, hof, hposition])
  | .element of args => (term_anchored receiver hreceiver of).bind fun of hof ↦
      (arguments_anchored receiver hreceiver args).bind fun args hargs ↦
        .record (fun _ ↦ rfl) (by simpa [Expr.children, hof] using hargs)
  | .span of _ => (term_anchored receiver hreceiver of).bind fun of hof ↦
      .record (fun _ ↦ rfl) (by simpa [Expr.children] using hof)
  | .conditional of access => by
    unfold term
    refine (term_anchored receiver hreceiver of).bind fun of hof ↦ ?_
    have hplaceholder : Yields (record (.placeholder · of)) fun e ↦ ∃ id, e = .placeholder id of := by
      intro d e d' hrun
      cases hrun
      exact ⟨_, rfl⟩
    refine hplaceholder.bind ?_
    rintro _ ⟨id, rfl⟩
    refine (term_anchored _ (fun e he ↦ ?_) access).bind fun access' haccess d e d' hrun ↦ ?_
    · cases he
      exact Expr.anchored_placeholder _ _
    · cases hrun
      exact Expr.anchored_conditional hof haccess
  | .receiver => by
    unfold term
    split
    · rename_i placeholder
      exact .pure (hreceiver placeholder rfl)
    · exact fun _ _ _ hrun ↦ nomatch hrun
termination_by structural t => t

theorem arguments_anchored (receiver : Option Expr)
    (hreceiver : ∀ e, receiver = some e → e.Anchored receiver) : (args : List (Argument Term)) →
      Yields (arguments receiver args) fun args ↦ ∀ arg ∈ args, arg.value.Anchored receiver
  | [] => .pure nofun
  | arg :: args => (term_anchored receiver hreceiver arg.value).bind fun _ hvalue ↦
      (arguments_anchored receiver hreceiver args).bind fun _ hrest ↦
        .pure (by simpa [hvalue] using hrest)
termination_by structural args => args

end

/-! ## Statements -/

end MethodDraft

/-- Every statement is of anchored expressions. -/
def Body.Anchored (b : Body) : Prop := ∀ s ∈ b.statements, ∀ e ∈ s.exprs, e.Anchored none

namespace MethodDraft

/-- Steps that leave the statements anchored. -/
abbrev KeepsAnchored (act : Build α) : Prop :=
  Ensures (·.body.Anchored) act fun _ d ↦ d.body.Anchored

/-- A step that keeps the statements, followed by one that may use what the first yields. -/
theorem KeepsAnchored.bind {act : Build α} {f : α → Build β} {P : α → Prop}
    (hact : KeepsAnchored act) (hyields : Yields act P) (hf : ∀ a, P a → KeepsAnchored (f a)) :
    KeepsAnchored (act >>= f) := by
  intro d b d' hd hrun
  obtain ⟨⟨a, mid⟩, hfirst, hsecond⟩ := Except.bind_eq_ok.1 hrun
  exact hf a (hyields hfirst) (hact hd hfirst) hsecond

theorem resolve_keepsAnchored (name : String) : KeepsAnchored (resolve name) :=
  resolve_keeps (fun _ _ hd ↦ hd) name

theorem anchored_of_statements {d d' : MethodDraft} (h : d'.body.statements = d.body.statements)
    (hd : d.body.Anchored) : d'.body.Anchored := fun s hs ↦ hd s (h ▸ hs)

theorem append_keepsAnchored {s : Statement} (hs : ∀ e ∈ s.exprs, e.Anchored none) :
    KeepsAnchored (append s) := by
  intro d a d' hd hrun
  cases hrun
  intro s' hs'
  rcases List.mem_append.1 hs' with hs' | hs'
  · exact hd s' hs'
  · rwa [List.mem_singleton.1 hs']

theorem term_bind {t : Term} {f : Expr → Build β}
    (hf : ∀ e, e.Anchored none → KeepsAnchored (f e)) : KeepsAnchored (term none t >>= f) :=
  KeepsAnchored.bind (term_keeps resolve_keepsAnchored (fun _ _ hd ↦ hd) none t)
    (term_anchored none nofun t) hf

theorem action_keepsAnchored : (a : Action) → KeepsAnchored (action a)
  | .expression value => term_bind fun value hvalue ↦
      append_keepsAnchored (by simpa [Statement.exprs] using hvalue)
  | .assign target value => term_bind fun target htarget ↦ term_bind fun value hvalue ↦
      append_keepsAnchored (by simp [Statement.exprs, htarget, hvalue])
  | .compound target op value => term_bind fun target htarget ↦ term_bind fun value hvalue ↦
      append_keepsAnchored (by simp [Statement.exprs, htarget, hvalue])
  | .refLocal name readonly type init => by
    unfold action
    refine (resolve_keepsAnchored type).bind (.any _) fun type _ ↦ term_bind fun init hinit ↦
      KeepsAnchored.bind ?_ (.any _) fun bound _ ↦
        bring_keepsWritten (fun _ _ _ ↦ anchored_of_statements) _ _
    intro d bound d' hd hrun
    cases hrun
    intro s hs
    rcases List.mem_append.1 hs with hs | hs
    · exact hd s hs
    · rw [List.mem_singleton.1 hs]
      simpa [Statement.exprs] using hinit
  | .call callee args => by
    unfold action
    refine KeepsAnchored.bind (arguments_keep resolve_keepsAnchored (fun _ _ hd ↦ hd) none args)
      (arguments_anchored none (fun _ h ↦ by cases h) args) fun args hargs ↦ append_keepsAnchored ?_
    simpa [Statement.exprs] using hargs
  | .ret none => append_keepsAnchored (by simp [Statement.exprs])
  | .ret (some value) => term_bind fun value hvalue ↦
      append_keepsAnchored (by simpa [Statement.exprs] using hvalue)

theorem method_keepsAnchored (m : MethodDecl) : KeepsAnchored (method m) :=
  method_keepsWritten (fun _ _ _ ↦ anchored_of_statements) m action_keepsAnchored

end MethodDraft

theorem Scenario.build_anchored {s : Scenario} {p : Program} (h : s.build = .ok p) :
    ∀ m ∈ p.methods, m.toBody.Anchored :=
  build_methods (fun d _ _ hdraft ↦
    MethodDraft.method_keepsAnchored d (by simp [Body.Anchored]) hdraft) h

/-! ## Reachable expressions -/

namespace Body

variable {b : Body} {e : Expr}

inductive Reaches (b : Body) : Expr → Prop
  | statement {s : Statement} {e : Expr} : s ∈ b.statements → e ∈ s.exprs → b.Reaches e
  | child {e part : Expr} : b.Reaches e → part ∈ e.children → b.Reaches part

theorem Reaches.records (hb : b.Orderly) (h : b.Reaches e) : b.Records e := by
  induction h with
  | statement hs he => exact hb.exprs _ hs _ he
  | child _ hpart ih => exact hb.children _ ih _ hpart

theorem map_fst_operands (b : Body) (s : Statement) : (s.operands b).map (·.1) = s.exprs := by
  cases s with
  | ret value => cases value <;> rfl
  | call callee args => simp [Statement.operands, Statement.exprs]
  | _ => rfl

/-- What is used is the parts of the statements' expressions. -/
theorem map_fst_uses (b : Body) :
    b.uses.map (·.1) = b.statements.flatMap fun s ↦ s.exprs.flatMap Expr.parts := by
  rw [uses, List.map_flatMap]
  refine List.flatMap_congr fun s _ ↦ ?_
  rw [← map_fst_operands b, Statement.uses, List.map_flatMap, List.flatMap_map]
  exact List.flatMap_congr fun use _ ↦ Expr.map_fst_uses use.2 use.1

theorem Reaches.part {e part : Expr} (h : b.Reaches e) (hpart : part ∈ e.parts) :
    b.Reaches part := by
  cases he : e.isPlaceholder with
  | true =>
    cases e with
    | placeholder id receiver =>
      rw [Expr.parts_placeholder, List.mem_singleton] at hpart
      rwa [hpart]
    | _ => cases he
  | false =>
    rw [Expr.parts_eq he] at hpart
    rcases List.mem_cons.1 hpart with rfl | hpart
    · exact h
    · obtain ⟨child, hchild, hpart⟩ := List.mem_flatMap.1 hpart
      exact (h.child hchild).part hpart
termination_by sizeOf e
decreasing_by exact Expr.sizeOf_lt_of_mem_children hchild

theorem reaches_of_used (h : e ∈ b.uses.map (·.1)) : b.Reaches e := by
  rw [map_fst_uses] at h
  obtain ⟨s, hs, h⟩ := List.mem_flatMap.1 h
  obtain ⟨root, hroot, h⟩ := List.mem_flatMap.1 h
  exact (Reaches.statement hs hroot).part h

/-- Whatever is reachable is used. -/
theorem Reaches.used (hb : b.Anchored) (h : b.Reaches e) : e ∈ b.uses.map (·.1) := by
  rw [map_fst_uses]
  induction h with
  | statement hs he =>
    exact List.mem_flatMap.2 ⟨_, hs, List.mem_flatMap.2 ⟨_, he, Expr.mem_parts_self _⟩⟩
  | @child e part _ hpart ih =>
    obtain ⟨s, hs, hused⟩ := List.mem_flatMap.1 ih
    obtain ⟨root, hroot, he⟩ := List.mem_flatMap.1 hused
    refine List.mem_flatMap.2 ⟨s, hs, List.mem_flatMap.2 ⟨root, hroot, ?_⟩⟩
    cases hplaceholder : e.isPlaceholder with
    | false =>
      exact root.parts_subset he
        (Expr.parts_subset_of_mem_children hplaceholder hpart part.mem_parts_self)
    | true =>
      cases e with
      | placeholder id receiver =>
        obtain rfl := List.mem_singleton.1 hpart
        exact (hb s hs root hroot id part he).resolve_left nofun
      | _ => cases hplaceholder

end Body

end InlineArrays
