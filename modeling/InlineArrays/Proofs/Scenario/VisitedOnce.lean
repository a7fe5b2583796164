import InlineArrays.Proofs.Scenario.Forest
import Mathlib

/-!
# Expressions visited once

Walking a body that is built from a scenario comes once to every expression that the body records,
save the placeholders.  To a placeholder it comes inside the access of the conditional access that
created it, and nowhere else.
-/

namespace InlineArrays

theorem infix_flatMap {α β : Type} {a : α} {l : List α} (h : a ∈ l) (f : α → List β) :
    f a <:+: l.flatMap f := by
  rw [List.flatMap_def]
  exact List.infix_of_mem_flatten (List.mem_map_of_mem h)

namespace Expr

/-- What walking the expressions comes to, by id. -/
def visits (roots : List Expr) : List ExprId := (roots.flatMap parts).map (·.id)

theorem visits_append (roots roots' : List Expr) :
    visits (roots ++ roots') = visits roots ++ visits roots' := by
  rw [visits, List.flatMap_append, List.map_append, visits, visits]

theorem visits_singleton (e : Expr) : visits [e] = e.parts.map (·.id) := by
  rw [visits, List.flatMap_singleton]

theorem visits_node {e : Expr} (he : e.isPlaceholder = false) :
    visits [e] = e.id :: visits e.children := by
  rw [visits_singleton, parts_eq he, List.map_cons, visits]

theorem visits_conditional (id : ExprId) (receiver access : Expr) :
    visits [.conditional id receiver access] =
      (conditional id receiver access).id :: (visits [receiver] ++ visits [access]) := by
  rw [visits_node rfl, ← visits_append]
  rfl

theorem parts_of_placeholder {e : Expr} (he : e.isPlaceholder) : e.parts = [e] := by
  cases e with
  | placeholder => rfl
  | _ => cases he

/-- A conditional access creates its placeholder: what is recorded between the placeholder and the
conditional access is what the access is made of. -/
inductive Creates (es : List Expr) : Expr → Expr → Prop
  | intro {id id' : ExprId} {receiver access : Expr} {between : List Expr} :
      .placeholder id receiver :: between ++ [.conditional id' receiver access] <:+: es →
      (∀ part ∈ access.parts, part = .placeholder id receiver ∨ part ∈ between) →
      (∀ e ∈ between, e.isPlaceholder = false → e ∈ access.parts) →
      Creates es (.conditional id' receiver access) (.placeholder id receiver)

/-- How often an expression of the arena is visited: once; or, if it is a placeholder, as often as
the access of the conditional access that created it visits it. -/
inductive VisitCount (es : List Expr) (e : Expr) (count : Nat) : Prop
  | once : e.isPlaceholder = false → count = 1 → VisitCount es e count
  | created {id : ExprId} {receiver access : Expr} :
      Creates es (.conditional id receiver access) e → count = (visits [access]).count e.id → VisitCount es e count

theorem Creates.mono {es es' : List Expr} {k p : Expr} (h : Creates es k p) (hes : es <:+: es') :
    Creates es' k p := by
  obtain ⟨hblock, hparts, hbetween⟩ := h
  exact ⟨hblock.trans hes, hparts, hbetween⟩

theorem VisitCount.mono {es es' : List Expr} {e : Expr} {n : Nat} (h : VisitCount es e n)
    (hes : es <:+: es') : VisitCount es' e n := by
  cases h with
  | once he hn => exact .once he hn
  | created h hn => exact .created (h.mono hes) hn

namespace Forest

variable {outer : Option Expr} {roots es : List Expr}

/-- Whatever is visited is in the arena, or the placeholder around. -/
theorem mem_of_visited (h : Forest outer roots es) :
    ∀ part ∈ roots.flatMap parts, outer = some part ∨ part ∈ es := by
  induction h with
  | nil => exact nofun
  | append _ _ ih ih' =>
    intro part hpart
    rw [List.flatMap_append] at hpart
    rcases List.mem_append.1 hpart with hpart | hpart
    · exact (ih part hpart).imp_right (List.mem_append_left _)
    · exact (ih' part hpart).imp_right (List.mem_append_right _)
  | mention hplaceholder =>
    intro part hpart
    rw [List.flatMap_singleton, parts_of_placeholder hplaceholder, List.mem_singleton] at hpart
    exact .inl (hpart ▸ rfl)
  | node he _ ih =>
    intro part hpart
    rw [List.flatMap_singleton, parts_eq he] at hpart
    rcases List.mem_cons.1 hpart with rfl | hpart
    · exact .inr List.mem_concat_self
    · exact (ih part hpart).imp_right (List.mem_append_left _)
  | @conditional outer id id' receiver access es es' _ _ ih ih' =>
    intro part hpart
    rw [List.flatMap_singleton] at hpart ih ih'
    rw [parts_conditional] at hpart
    have hreceiver := ih part
    have haccess := ih' part
    grind

/-- Whatever is in the arena is visited, save placeholders. -/
theorem visited_of_mem (h : Forest outer roots es) {e : Expr} (he : e ∈ es)
    (hplain : e.isPlaceholder = false) : e ∈ roots.flatMap parts := by
  induction h with
  | nil | mention => cases he
  | append _ _ ih ih' =>
    rw [List.flatMap_append]
    exact List.mem_append.2 ((List.mem_append.1 he).imp ih ih')
  | node hroot _ ih =>
    rw [List.flatMap_singleton, parts_eq hroot]
    rcases List.mem_append.1 he with he | he
    · exact List.mem_cons_of_mem _ (ih he)
    · exact List.mem_singleton.1 he ▸ List.mem_cons_self
  | conditional _ _ ih ih' =>
    rw [List.flatMap_singleton] at ih ih' ⊢
    rw [parts_conditional]
    grind [Expr.isPlaceholder]

/-- Expressions of an arena, and the placeholder around it, that have different ids. -/
def Apart (outer : Option Expr) (es : List Expr) : Prop :=
  (outer.toList ++ es).Pairwise fun e e' ↦ e.id ≠ e'.id

theorem Apart.sublist {es' : List Expr} (h : Apart outer es) (hes : es'.Sublist es) :
    Apart outer es' :=
  List.Pairwise.sublist (hes.append_left _) h

theorem count_visits_eq_zero (h : Forest outer roots es) {id : ExprId}
    (hid : ∀ e ∈ outer.toList ++ es, e.id ≠ id) : (visits roots).count id = 0 := by
  refine List.count_eq_zero.2 fun hmem ↦ ?_
  obtain ⟨part, hpart, hpartid⟩ := List.mem_map.1 hmem
  refine hid part (List.mem_append.2 ?_) hpartid
  exact (h.mem_of_visited part hpart).imp_left Option.mem_toList.2

theorem creates {id id' : ExprId} {receiver access : Expr} {es' : List Expr}
    (h : Forest (some (.placeholder id receiver)) [access] es') :
    Creates (es ++ .placeholder id receiver :: es' ++ [.conditional id' receiver access])
      (.conditional id' receiver access) (.placeholder id receiver) := by
  have hparts : [access].flatMap parts = access.parts := List.flatMap_singleton ..
  have hblock : .placeholder id receiver :: es' ++ [.conditional id' receiver access] <:+:
      es ++ .placeholder id receiver :: es' ++ [.conditional id' receiver access] :=
    ⟨es, [], by simp⟩
  refine .intro hblock (fun part hpart ↦ ?_) fun e he hplain ↦
    hparts ▸ h.visited_of_mem he hplain
  exact (h.mem_of_visited part (hparts ▸ hpart)).imp_left fun houter ↦ (Option.some.inj houter).symm

/-- Ids tell the pieces of a forest apart: what one of them recorded, walking the others does not
come to. -/
theorem visitCount (h : Forest outer roots es) (hapart : Apart outer es) :
    ∀ e ∈ es, VisitCount es e ((visits roots).count e.id) := by
  induction h with
  | nil | mention => exact nofun
  | @append outer roots roots' es es' h h' ih ih' =>
    have hfirst : Apart outer es := hapart.sublist (List.sublist_append_left _ _)
    have hsecond : Apart outer es' := hapart.sublist (List.sublist_append_right _ _)
    simp only [Apart, List.pairwise_append] at hapart
    intro e he
    rw [visits_append, List.count_append]
    rcases List.mem_append.1 he with he | he
    · rw [h'.count_visits_eq_zero (by grind), Nat.add_zero]
      exact (ih hfirst e he).mono (List.prefix_append _ _).isInfix
    · rw [h.count_visits_eq_zero (by grind), Nat.zero_add]
      exact (ih' hsecond e he).mono (List.suffix_append _ _).isInfix
  | @node outer root es hroot h ih =>
    have hchildren : Apart outer es := hapart.sublist (List.sublist_append_left _ _)
    simp only [Apart, List.pairwise_append, List.mem_append, List.mem_singleton] at hapart
    intro e he
    rw [visits_node hroot]
    rcases List.mem_append.1 he with he | he
    · rw [List.count_cons_of_ne (by grind)]
      exact (ih hchildren e he).mono (List.prefix_append _ _).isInfix
    · rw [List.mem_singleton.1 he, List.count_cons_self, h.count_visits_eq_zero (by grind)]
      exact .once hroot rfl
  | @conditional outer id id' receiver access es es' h h' ih ih' =>
    have hreceiver : Apart outer es := hapart.sublist (by simp)
    have haccess : Apart (some (.placeholder id receiver)) es' :=
      List.Pairwise.sublist (((List.sublist_append_right _ _).trans
        (List.sublist_append_left _ _)).trans (List.sublist_append_right _ _)) hapart
    simp only [Apart, List.pairwise_append, List.pairwise_cons, List.mem_append, List.mem_cons]
      at hapart
    intro e he
    rw [visits_conditional]
    rcases List.mem_append.1 he with he | he
    · rw [List.count_cons_of_ne (by grind), List.count_append]
      rcases List.mem_append.1 he with he | he
      · rw [h'.count_visits_eq_zero (by grind), Nat.add_zero]
        exact (ih hreceiver e he).mono ⟨[], _, by simp; rfl⟩
      · rw [h.count_visits_eq_zero (by grind), Nat.zero_add]
        rcases List.mem_cons.1 he with rfl | he
        · exact .created h'.creates rfl
        · exact (ih' haccess e he).mono ⟨es ++ [.placeholder id receiver], _, by simp; rfl⟩
    · rw [List.mem_singleton.1 he, List.count_cons_self, List.count_append,
        h.count_visits_eq_zero (by grind), h'.count_visits_eq_zero (by grind)]
      exact .once rfl rfl

end Forest

/-! ## Walks -/

/-- Walking an expression comes to the expression and then walks its children. -/
theorem uses_eq_cons {e : Expr} (he : e.isPlaceholder = false) (usage : Usage) :
    ∃ operands : List Use, operands.map (·.1) = e.children ∧
      e.uses usage = (e, usage) :: operands.flatMap fun use ↦ use.1.uses use.2 := by
  cases e with
  | var | call | int | bool | string | default => exact ⟨[], rfl, rfl⟩
  | field _ receiver _ | span _ receiver _ =>
    exact ⟨[(receiver, .receiver)], rfl, by simp [uses]⟩
  | fromEnd _ count => exact ⟨[(count, .read)], rfl, by simp [uses]⟩
  | range _ start stop =>
    refine ⟨(start.toList ++ stop.toList).map (·, .read), ?_, ?_⟩
    · rw [List.map_map, children]
      exact List.map_id _
    · cases start <;> cases stop <;> simp [uses]
  | element _ receiver args =>
    have hargs : argumentUses args = args.flatMap (·.value.uses .read) := by
      clear he
      induction args with
      | nil => rfl
      | cons arg args ih => rw [argumentUses, ih, List.flatMap_cons]
    refine ⟨(receiver, .receiver) :: args.map (·.value, .read), by simp [children], ?_⟩
    rw [uses, hargs, List.flatMap_cons, List.flatMap_map]
  | conditional _ receiver access =>
    exact ⟨[(receiver, .read), (access, usage)], rfl, by simp [uses]⟩
  | placeholder => cases he

/-- Walking an expression walks each of its parts. -/
theorem exists_walk (e : Expr) {part : Expr} (h : part ∈ e.parts) (usage : Usage) :
    ∃ usage', part.uses usage' <:+: e.uses usage := by
  cases he : e.isPlaceholder with
  | true =>
    rw [parts_of_placeholder he, List.mem_singleton] at h
    exact ⟨usage, h ▸ List.infix_rfl⟩
  | false =>
    rw [parts_eq he] at h
    rcases List.mem_cons.1 h with rfl | h
    · exact ⟨usage, List.infix_rfl⟩
    obtain ⟨child, hchild, hpart⟩ := List.mem_flatMap.1 h
    obtain ⟨operands, hoperands, huses⟩ := uses_eq_cons he usage
    obtain ⟨operand, hoperand, rfl⟩ := List.mem_map.1 (hoperands ▸ hchild)
    obtain ⟨usage', hblock⟩ := operand.1.exists_walk hpart operand.2
    refine ⟨usage', hblock.trans ?_⟩
    rw [huses]
    exact (infix_flatMap hoperand fun use ↦ use.1.uses use.2).trans (List.suffix_cons _ _).isInfix
termination_by sizeOf e
decreasing_by exact sizeOf_lt_of_mem_children hchild

end Expr

namespace Body

variable {b : Body} {e : Expr}

theorem exists_walk (h : e ∈ b.uses.map (·.1)) : ∃ usage, e.uses usage <:+: b.uses := by
  rw [map_fst_uses] at h
  obtain ⟨s, hs, h⟩ := List.mem_flatMap.1 h
  obtain ⟨root, hroot, hpart⟩ := List.mem_flatMap.1 h
  obtain ⟨operand, hoperand, rfl⟩ := List.mem_map.1 (map_fst_operands b s ▸ hroot)
  obtain ⟨usage, hblock⟩ := operand.1.exists_walk hpart operand.2
  refine ⟨usage, hblock.trans ?_⟩
  exact (infix_flatMap hoperand fun use ↦ use.1.uses use.2).trans (infix_flatMap hs (·.uses b))

/-- A walk of the body comes to every expression once, and to a placeholder inside the access that
it was created for only. -/
structure VisitedOnce (b : Body) : Prop where
  records : ∀ use ∈ b.uses, b.Records use.1
  once : ∀ e, b.Records e → e.isPlaceholder = false → (b.uses.map (·.1.id)).count e.id = 1
  placeholder : ∀ id receiver, b.Records (.placeholder id receiver) →
    ∃ id' access usage before after,
      Expr.Creates b.exprs.toList (.conditional id' receiver access) (.placeholder id receiver) ∧
      b.uses = before ++ (.conditional id' receiver access, usage) ::
        (receiver.uses .read ++ access.uses usage) ++ after ∧
      ∀ use ∈ before ++ receiver.uses .read ++ after, use.1.id ≠ id

/-- The walk of a body comes to what walking the expressions of its statements comes to. -/
theorem map_uses_eq_visits (b : Body) :
    b.uses.map (·.1.id) = Expr.visits (b.statements.flatMap (·.exprs)) := by
  rw [Expr.visits, List.flatMap_assoc, ← map_fst_uses, List.map_map]
  rfl

theorem Records.mem (he : b.Records e) : e ∈ b.exprs.toList :=
  Array.mem_toList_iff.2 (Array.mem_of_getElem? he)

theorem Orderly.apart (hb : b.Orderly) : Expr.Forest.Apart none b.exprs.toList := by
  refine List.pairwise_iff_getElem.2 fun i j hi hj hlt ↦ ?_
  simp only [Option.toList_none, List.nil_append, Array.length_toList, Array.getElem_toList]
    at hi hj ⊢
  rw [hb.ids i _ (Array.getElem?_eq_getElem hi), hb.ids j _ (Array.getElem?_eq_getElem hj)]
  exact Nat.ne_of_lt hlt

theorem Orderly.visitedOnce (hb : b.Orderly)
    (h : Expr.Forest none (b.statements.flatMap (·.exprs)) b.exprs.toList) : b.VisitedOnce where
  records use huse := (reaches_of_used (List.mem_map_of_mem huse)).records hb
  once e he hplain := by
    rw [map_uses_eq_visits]
    cases h.visitCount hb.apart e he.mem with
    | once _ hcount => exact hcount
    | created hcreates => cases hcreates; cases hplain
  placeholder id receiver he := by
    cases h.visitCount hb.apart _ he.mem with
    | once hplain => cases hplain
    | @created id' receiver' access hcreates hcount =>
      cases hcreates with | intro hblock hparts hbetween
      have hmem : .conditional id' receiver access ∈ b.exprs.toList := hblock.subset (by simp)
      have hused : .conditional id' receiver access ∈ b.uses.map (·.1) := by
        rw [map_fst_uses, ← List.flatMap_assoc]
        exact h.visited_of_mem hmem rfl
      obtain ⟨usage, before, after, huses⟩ := exists_walk hused
      refine ⟨id', access, usage, before, after, .intro hblock hparts hbetween, huses.symm, ?_⟩
      have haccess : (access.uses usage).map (·.1.id) = Expr.visits [access] := by
        rw [Expr.visits_singleton, ← Expr.map_fst_uses usage, List.map_map]
        rfl
      -- the walk of the access comes to the placeholder as often as that of the whole body
      have hnone : ((before ++ receiver.uses .read ++ after).map (·.1.id)).count id = 0 := by
        have hcount : (b.uses.map (·.1.id)).count id = (Expr.visits [access]).count id := by
          rw [map_uses_eq_visits]
          exact hcount
        rw [← huses, Expr.uses] at hcount
        simp only [List.map_append, List.map_cons, List.count_append, List.count_cons, haccess]
          at hcount ⊢
        omega
      exact fun use huse hid ↦ List.count_eq_zero.1 hnone (hid ▸ List.mem_map_of_mem huse)

end Body

namespace MethodDraft

/-- Walking a method that has been built comes to every expression once, and to a placeholder only
inside the access of the conditional access that created it, after its receiver. -/
theorem method_visitedOnce {d : MethodDecl} {types : TypeTable} {draft : MethodDraft}
    (h : method d { types, body := { name := d.name } } = .ok ((), draft)) :
    draft.body.VisitedOnce := by
  have hempty : ({ types, body := { name := d.name } } : MethodDraft).Orderly d.name [] :=
    ⟨rfl, ⟨by simp, by simp [Body.Records], by simp [Body.Records], nofun, nofun, by simp⟩, nofun,
      nofun⟩
  exact (method_keepsOrder d ⟨hempty, rfl⟩ h).body.visitedOnce (method_forest h)

/-- Reads `node?.next?.value`. -/
def readsNext : MethodDecl where
  name := "Main"
  returns := .void
  returnType := none
  owner := none
  parameters := [⟨"node", .value, "Node", false⟩]
  locals := []
  body := [.expression (.conditional (.path "node")
    (.conditional (.field .receiver "next") (.field .receiver "value")))]

def nodeTypes : TypeTable :=
  ⟨[.struct ⟨"Node", .reference, [⟨"next", 7, false⟩, ⟨"value", TypeTable.int, false⟩]⟩]⟩

/-- The access `.next`, taken of the placeholder for `node`. -/
def nextNode : Expr := .field 2 (.placeholder 1 (.var 0 0)) "next"

def nextValue : Expr := .field 4 (.placeholder 3 nextNode) "value"

def readNext : MethodDraft where
  types := nodeTypes
  names := [("node", 0)]
  body :=
    { name := "Main"
      exprs := #[.var 0 0, .placeholder 1 (.var 0 0), nextNode, .placeholder 3 nextNode, nextValue,
        .conditional 5 nextNode nextValue,
        .conditional 6 (.var 0 0) (.conditional 5 nextNode nextValue)]
      vars := #[{ name := "node", kind := .parameter .value, type := 7 }]
      statements :=
        [.expression (.conditional 6 (.var 0 0) (.conditional 5 nextNode nextValue))] }

theorem method_readsNext :
    method readsNext { types := nodeTypes, body := { name := "Main" } } = .ok ((), readNext) := by
  cbv

theorem readsNext_visitedOnce :
    readNext.body.uses.map (·.1.id) = [6, 0, 5, 2, 1, 4, 3] ∧ readNext.body.VisitedOnce :=
  ⟨by cbv, method_visitedOnce method_readsNext⟩

end MethodDraft

end InlineArrays
