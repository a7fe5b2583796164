import InlineArrays.Proofs.Scenario.Anchored
import InlineArrays.Validation.RefSafety

/-!
# Expressions used once

A scenario names nothing but variables and methods, so building records an expression for each term,
and each has one place in which it is used.  The exception is the placeholder of a conditional access:
each mention of the receiver in the access is a use of it.  All of these take its value, unless the
access is the placeholder itself, and then there is no other.
-/

namespace InlineArrays

namespace Use

/-- A use of a placeholder for its value. -/
def IsPassive (use : Use) : Prop := use.1.isPlaceholder ∧ use.2.isChecked = false

/-- Two uses of one expression are passive. -/
def Apart (use use' : Use) : Prop := use.1.id = use'.1.id → IsPassive use ∧ IsPassive use'

instance : Std.Symm Apart := ⟨fun _ _ h hid ↦ (h hid.symm).symm⟩

/-- The uses are of expressions with ids from `first` to before `next`, each used once, and passive
ones of the placeholder `outer` that was recorded before. -/
structure Spread (outer : Option Expr) (first next : Nat) (uses : List Use) : Prop where
  le : first ≤ next
  outer_lt : ∀ e, outer = some e → e.id < first
  apart : uses.Pairwise Apart
  within : ∀ use ∈ uses, (first ≤ use.1.id ∧ use.1.id < next) ∨ (outer = some use.1 ∧ IsPassive use)

namespace Spread

variable {outer : Option Expr} {first mid next : Nat} {uses uses' : List Use}

theorem nil (houter : ∀ e, outer = some e → e.id < first) : Spread outer first first [] :=
  ⟨Nat.le_refl _, houter, .nil, nofun⟩

theorem mono (h : Spread outer first mid uses) (hle : mid ≤ next) : Spread outer first next uses :=
  ⟨Nat.le_trans h.le hle, h.outer_lt, h.apart, fun use huse ↦
    (h.within use huse).imp_left fun hrange ↦ ⟨hrange.1, Nat.lt_of_lt_of_le hrange.2 hle⟩⟩

theorem append (h : Spread outer first mid uses) (h' : Spread outer mid next uses') :
    Spread outer first next (uses ++ uses') where
  le := Nat.le_trans h.le h'.le
  outer_lt := h.outer_lt
  apart := by
    refine List.pairwise_append.2 ⟨h.apart, h'.apart, fun use huse use' huse' hid ↦ ?_⟩
    rcases h.within use huse with hrange | ⟨houter, hpassive⟩
    · have hlt : use'.1.id < mid := hid ▸ hrange.2
      rcases h'.within use' huse' with hrange' | ⟨houter', -⟩
      · exact absurd hrange'.1 (Nat.not_le.2 hlt)
      · exact absurd (hid ▸ h.outer_lt _ houter') (Nat.not_lt.2 hrange.1)
    · rcases h'.within use' huse' with hrange' | ⟨-, hpassive'⟩
      · exact absurd (hid ▸ h'.outer_lt _ houter) (Nat.not_lt.2 hrange'.1)
      · exact ⟨hpassive, hpassive'⟩
  within use huse := by
    rcases List.mem_append.1 huse with huse | huse
    · exact (h.within use huse).imp_left fun hrange ↦
        ⟨hrange.1, Nat.lt_of_lt_of_le hrange.2 h'.le⟩
    · exact (h'.within use huse).imp_left fun hrange ↦
        ⟨Nat.le_trans h.le hrange.1, hrange.2⟩

/-- The use of an expression that has just been recorded. -/
theorem concat (h : Spread outer first next uses) {e : Expr} (he : e.id = next) (usage : Usage) :
    Spread outer first (next + 1) (uses ++ [(e, usage)]) := by
  have hsingle : Spread outer next (next + 1) [(e, usage)] := by
    refine ⟨Nat.le_succ _, fun e he ↦ Nat.lt_of_lt_of_le (h.outer_lt e he) h.le,
      List.pairwise_singleton .., fun use huse ↦ ?_⟩
    rw [List.mem_singleton.1 huse]
    exact .inl ⟨Nat.le_of_eq he.symm, he ▸ Nat.lt_succ_self _⟩
  exact h.append hsingle

/-- Outside a conditional access its placeholder is one of the expressions used. -/
theorem close {placeholder : Expr} (h : Spread (some placeholder) (first + 1) next uses)
    (hid : placeholder.id = first) (houter : ∀ e, outer = some e → e.id < first) :
    Spread outer first next uses where
  le := Nat.le_of_succ_le h.le
  outer_lt := houter
  apart := h.apart
  within use huse := by
    refine .inl ?_
    rcases h.within use huse with hrange | ⟨hplaceholder, -⟩
    · exact ⟨Nat.le_of_succ_le hrange.1, hrange.2⟩
    · rw [← Option.some.inj hplaceholder, hid]
      exact ⟨Nat.le_refl _, h.le⟩

/-- Another passive use of the placeholder. -/
theorem passive {placeholder : Expr} (h : Spread (some placeholder) first next uses) {usage : Usage}
    (hpassive : IsPassive (placeholder, usage)) :
    Spread (some placeholder) first next (uses ++ [(placeholder, usage)]) where
  le := h.le
  outer_lt := h.outer_lt
  apart := by
    refine List.pairwise_append.2 ⟨h.apart, List.pairwise_singleton .., fun use huse use' huse' hid ↦ ?_⟩
    rw [List.mem_singleton.1 huse'] at hid ⊢
    rcases h.within use huse with hrange | ⟨-, hpassive'⟩
    · exact absurd (hid ▸ hrange.1) (Nat.not_le.2 (h.outer_lt _ rfl))
    · exact ⟨hpassive', hpassive⟩
  within use huse := by
    rcases List.mem_append.1 huse with huse | huse
    · exact h.within use huse
    · rw [List.mem_singleton.1 huse]
      exact .inr ⟨rfl, hpassive⟩

end Spread

end Use

namespace Expr

theorem argumentUsesAfterParts_eq (args : List (Argument Expr)) :
    argumentUsesAfterParts args = args.flatMap fun arg ↦ arg.value.usesAfterParts .read := by
  induction args with
  | nil => rfl
  | cons arg args ih => rw [argumentUsesAfterParts, ih, List.flatMap_cons]

theorem usesAfterParts_range (id : ExprId) (start stop : Option Expr) (usage : Usage) :
    (range id start stop).usesAfterParts usage =
      ((match start with
        | some bound => bound.usesAfterParts .read
        | none => []) ++
      match stop with
        | some bound => bound.usesAfterParts .read
        | none => []) ++ [(.range id start stop, usage)] := by
  cases start <;> cases stop <;> rfl

theorem usesAfterParts_placeholder {e : Expr} (he : e.isPlaceholder) (usage : Usage) :
    e.usesAfterParts usage = [(e, usage)] := by
  cases e with
  | placeholder => rfl
  | _ => cases he

end Expr

namespace MethodDraft

open Use (Spread IsPassive)

variable {outer : Option Expr} {first : Nat} {uses : List Use}

/-- So far the body has used these expressions. -/
abbrev Uses (outer : Option Expr) (first : Nat) (uses : List Use) (d : MethodDraft) : Prop :=
  Spread outer first d.body.exprs.size uses

/-- The draft has used an expression as well, in whatever way; a placeholder that stands alone may
have been used before. -/
def UsesToo (outer : Option Expr) (first : Nat) (uses : List Use) (e : Expr) (d : MethodDraft) :
    Prop :=
  ∀ usage : Usage, (usage.isChecked → outer ≠ some e) →
    d.Uses outer first (uses ++ e.usesAfterParts usage)

theorem UsesToo.byValue {e : Expr} {d : MethodDraft} (h : UsesToo outer first uses e d)
    (usage : Usage) (husage : usage.isChecked = false) :
    d.Uses outer first (uses ++ e.usesAfterParts usage) :=
  h usage fun hchecked ↦ by
    rw [husage] at hchecked
    cases hchecked

theorem resolve_keepsUses (name : String) :
    Ensures (Uses outer first uses) (resolve name) fun _ ↦ Uses outer first uses :=
  resolve_keeps (fun _ _ hd ↦ hd) name

/-- Recording an expression, in whatever way its parts have been used with it. -/
theorem record_uses {make : ExprId → Expr} {parts : Usage → List Use}
    (hid : ∀ id, (make id).id = id)
    (hparts : ∀ id usage, (make id).usesAfterParts usage = parts usage ++ [(make id, usage)]) :
    Ensures (fun d ↦ ∀ usage, d.Uses outer first (uses ++ parts usage)) (record make)
      (UsesToo outer first uses) := by
  intro d e d' hd hrun usage _
  cases hrun
  rw [hparts, ← List.append_assoc, Uses, Array.size_push]
  exact (hd usage).concat (hid _) usage

/-- Recording an expression whose parts have been used by value. -/
theorem record_usesToo {make : ExprId → Expr} {parts : List Use} (hid : ∀ id, (make id).id = id)
    (hparts : ∀ id usage, (make id).usesAfterParts usage = parts ++ [(make id, usage)]) :
    Ensures (Uses outer first (uses ++ parts)) (record make) (UsesToo outer first uses) :=
  (record_uses hid hparts).mono (fun _ hd _ ↦ hd) fun _ _ hd ↦ hd

/-- Recording a leaf. -/
theorem recordLeaf_usesToo {make : ExprId → Expr} (hid : ∀ id, (make id).id = id)
    (hparts : ∀ id usage, (make id).usesAfterParts usage = [(make id, usage)]) :
    Ensures (Uses outer first uses) (record make) (UsesToo outer first uses) :=
  (record_usesToo hid hparts).mono (fun _ hd ↦ by rwa [List.append_nil]) fun _ _ hd ↦ hd

theorem recordFields_usesToo (names : List String) (e : Expr) :
    Ensures (UsesToo outer first uses e) (onBody (·.recordFields e names)) (UsesToo outer first uses) := by
  induction names generalizing e with
  | nil =>
    intro d e' d' hd hrun
    cases hrun
    exact hd
  | cons name names ih =>
    intro d e' d' hd hrun
    have hfield : Ensures (Uses outer first (uses ++ e.usesAfterParts .receiver))
        (record (.field · e name)) (UsesToo outer first uses) :=
      record_usesToo (fun _ ↦ rfl) fun _ _ ↦ rfl
    exact ih _ (hfield (hd.byValue _ rfl) rfl) hrun

/-- An optional part. -/
theorem bound_uses {act : Build Expr}
    (h : Ensures (Uses outer first uses) act (UsesToo outer first uses)) :
    Ensures (Uses outer first uses) (some <$> act) fun bound ↦ Uses outer first (uses ++
      match bound with
      | some bound => bound.usesAfterParts .read
      | none => []) :=
  Ensures.map (h.mono (fun _ hd ↦ hd) fun _ _ hd ↦ hd.byValue _ rfl)

/-- The placeholder of a conditional access has been recorded after these uses. -/
structure Opened (outer : Option Expr) (first : Nat) (uses : List Use) (placeholder : Expr)
    (d : MethodDraft) : Prop where
  isPlaceholder : placeholder.isPlaceholder
  size : d.body.exprs.size = placeholder.id + 1
  uses : Spread outer first placeholder.id uses

theorem placeholder_opens (receiver : Expr) :
    Ensures (Uses outer first uses) (record (.placeholder · receiver)) (Opened outer first uses) := by
  intro d e d' hd hrun
  cases hrun
  exact ⟨rfl, Array.size_push .., hd⟩

/-- The access of a conditional uses the placeholder that stands for its receiver, in whatever way. -/
theorem access_uses {placeholder : Expr} {access : Build Expr}
    (haccess : placeholder.isPlaceholder →
      Ensures (Uses (some placeholder) (placeholder.id + 1) []) access
        (UsesToo (some placeholder) (placeholder.id + 1) [])) :
    Ensures (Opened outer first uses placeholder) access fun access d ↦
      ∀ usage : Usage, d.Uses outer first (uses ++ access.usesAfterParts usage) := by
  intro d access d' hd hrun usage
  have hstart : d.Uses (some placeholder) (placeholder.id + 1) [] := by
    rw [Uses, hd.size]
    exact .nil fun e he ↦ Option.some.inj he ▸ Nat.lt_succ_self _
  have hplaceholder := hd.isPlaceholder
  have htoo := haccess hplaceholder hstart hrun
  by_cases hself : access = placeholder
  · have hle := (htoo.byValue .read rfl).le
    rw [hself, Expr.usesAfterParts_placeholder hplaceholder]
    exact (hd.uses.concat rfl usage).mono hle
  · have hspread := htoo usage fun _ heq ↦ hself (Option.some.inj heq).symm
    exact hd.uses.append (hspread.close rfl fun e he ↦
      Nat.lt_of_lt_of_le (hd.uses.outer_lt e he) hd.uses.le)

mutual

theorem term_usesToo (outer : Option Expr) (houter : ∀ e, outer = some e → e.isPlaceholder) :
    (t : Term) → (first : Nat) → (uses : List Use) →
      Ensures (Uses outer first uses) (term outer t) (UsesToo outer first uses)
  | .path text, first, uses => by
    unfold term
    exact (variableNamed_keeps _).bind fun root ↦
      (recordLeaf_usesToo (fun _ ↦ rfl) fun _ _ ↦ rfl).bind fun base ↦ recordFields_usesToo _ base
  | .field of name, first, uses => by
    unfold term
    exact (term_usesToo outer houter of first uses).bind fun of ↦
      (record_usesToo (fun _ ↦ rfl) fun _ _ ↦ rfl).mono (fun _ hd ↦ hd.byValue _ rfl) fun _ _ hd ↦ hd
  | .int _, _, _ | .bool _, _, _ | .string _, _, _ =>
    recordLeaf_usesToo (fun _ ↦ rfl) fun _ _ ↦ rfl
  | .fromEnd count, first, uses => by
    unfold term
    exact (term_usesToo outer houter count first uses).bind fun count ↦
      (record_usesToo (fun _ ↦ rfl) fun _ _ ↦ rfl).mono (fun _ hd ↦ hd.byValue _ rfl) fun _ _ hd ↦ hd
  | .range start stop, first, uses => by
    unfold term rangeTerm
    have hbound (uses : List Use) (bound : Option Term) (hterm : ∀ t ∈ bound,
        Ensures (Uses outer first uses) (term outer t) (UsesToo outer first uses)) :
        Ensures (Uses outer first uses)
          (match bound with
            | some bound => some <$> term outer bound
            | none => pure none)
          fun bound ↦ Uses outer first (uses ++
            match bound with
            | some bound => bound.usesAfterParts .read
            | none => []) := by
      cases bound with
      | none => exact .pure fun d hd ↦ by simpa using hd
      | some bound => exact bound_uses (hterm bound rfl)
    refine (hbound uses start ?_).bind fun first' ↦ (hbound _ stop ?_).bind fun last ↦
      (record_usesToo (fun _ ↦ rfl) fun _ _ ↦ Expr.usesAfterParts_range ..).mono
        (fun _ hd ↦ by rwa [← List.append_assoc]) fun _ _ hd ↦ hd
    · cases start with
      | none => exact nofun
      | some bound => exact fun t ht ↦ Option.some.inj ht ▸ term_usesToo outer houter bound first uses
    · cases stop with
      | none => exact nofun
      | some bound => exact fun t ht ↦ Option.some.inj ht ▸ term_usesToo outer houter bound first _
  | .default type, first, uses => by
    unfold term
    exact (resolve_keepsUses type).bind fun _ ↦ recordLeaf_usesToo (fun _ ↦ rfl) fun _ _ ↦ rfl
  | .call _ _ type, first, uses => by
    unfold term
    exact (resolve_keepsUses type).bind fun _ ↦ recordLeaf_usesToo (fun _ ↦ rfl) fun _ _ ↦ rfl
  | .index of position, first, uses => by
    unfold term
    refine (term_usesToo outer houter of first uses).bind fun of ↦
      ((term_usesToo outer houter position first _).mono (fun _ hd ↦ hd.byValue .receiver rfl)
        fun _ _ hd ↦ hd.byValue .read rfl).bind fun position ↦
          (record_usesToo (fun _ ↦ rfl) fun _ _ ↦ rfl).mono (fun _ hd ↦ ?_) fun _ _ hd ↦ hd
    rwa [Expr.argumentUsesAfterParts_eq, List.flatMap_singleton, ← List.append_assoc]
  | .element of args, first, uses => by
    unfold term
    refine (term_usesToo outer houter of first uses).bind fun of ↦
      ((arguments_uses outer houter args first _ fun _ ↦ .read).mono
        (fun _ hd ↦ hd.byValue .receiver rfl) fun _ _ hd ↦ hd fun _ _ hchecked ↦ nomatch hchecked).bind fun args ↦
          (record_usesToo (fun _ ↦ rfl) fun _ _ ↦ rfl).mono (fun _ hd ↦ ?_) fun _ _ hd ↦ hd
    rwa [Expr.argumentUsesAfterParts_eq, ← List.append_assoc]
  | .span of _, first, uses => by
    unfold term
    exact (term_usesToo outer houter of first uses).bind fun of ↦
      (record_usesToo (fun _ ↦ rfl) fun _ _ ↦ rfl).mono (fun _ hd ↦ hd.byValue _ rfl) fun _ _ hd ↦ hd
  | .conditional of access, first, uses => by
    unfold term
    refine (term_usesToo outer houter of first uses).bind fun of ↦
      ((placeholder_opens of).mono (fun _ hd ↦ hd.byValue .read rfl) fun _ _ hd ↦ hd).bind
        fun placeholder ↦ (access_uses fun hplaceholder ↦ term_usesToo (some placeholder)
          (fun e he ↦ Option.some.inj he ▸ hplaceholder) access (placeholder.id + 1) []).bind
            fun access ↦ (record_uses (fun _ ↦ rfl) fun _ _ ↦ rfl).mono (fun _ hd usage ↦ ?_)
              fun _ _ hd ↦ hd
    rw [← List.append_assoc]
    exact hd usage
  | .receiver, first, uses => by
    unfold term
    split
    · rename_i placeholder
      refine .pure fun d hd usage husage ↦ ?_
      have hplaceholder := houter placeholder rfl
      have hpassive : usage.isChecked = false :=
        Bool.eq_false_iff.2 fun hchecked ↦ husage hchecked rfl
      rw [Expr.usesAfterParts_placeholder hplaceholder]
      exact hd.passive ⟨hplaceholder, hpassive⟩
    · exact fun _ _ _ _ hrun ↦ nomatch hrun
termination_by structural t => t

theorem arguments_uses (outer : Option Expr) (houter : ∀ e, outer = some e → e.isPlaceholder) :
    (args : List (Argument Term)) → (first : Nat) → (uses : List Use) →
      (usage : Argument Expr → Usage) → Ensures (Uses outer first uses) (arguments outer args)
        fun args d ↦ (∀ arg ∈ args, (usage arg).isChecked → outer ≠ some arg.value) →
          d.Uses outer first (uses ++ args.flatMap fun arg ↦ arg.value.usesAfterParts (usage arg))
  | [], first, uses, usage => .pure fun d hd _ ↦ by simpa using hd
  | arg :: args, first, uses, usage => by
    unfold arguments
    intro d rest d' hd hrun husage
    obtain ⟨⟨value, mid⟩, hvalue, hrun⟩ := Except.bind_eq_ok.1 hrun
    obtain ⟨⟨rest, last⟩, hrest, hrun⟩ := Except.bind_eq_ok.1 hrun
    cases hrun
    obtain ⟨hfirst, husage⟩ := List.forall_mem_cons.1 husage
    rw [List.flatMap_cons, ← List.append_assoc]
    exact arguments_uses outer houter args first _ usage
      (term_usesToo outer houter arg.value first uses hd hvalue _ hfirst) hrest husage
termination_by structural args => args

end

/-! ## Statements -/

/-- The statements of the body so far, and what else has been recorded for the next one, use each
expression once, in whatever body the statements are read. -/
def Pending (uses : Body → List Use) (d : MethodDraft) : Prop :=
  ∀ b, d.Uses none 0 (d.body.statements.flatMap (·.usesAfterParts b) ++ uses b)

/-- Steps that leave nothing pending. -/
abbrev KeepsUsedOnce {α : Type} (act : Build α) : Prop :=
  Ensures (Pending fun _ ↦ []) act fun _ ↦ Pending fun _ ↦ []

theorem Pending.of_body {uses : Body → List Use} {d d' : MethodDraft}
    (hexprs : d'.body.exprs = d.body.exprs) (hstatements : d'.body.statements = d.body.statements)
    (h : Pending uses d) : Pending uses d' := by
  intro b
  rw [Uses, hexprs, hstatements]
  exact h b

theorem resolve_keepsPending {uses : Body → List Use} (name : String) :
    Ensures (Pending uses) (resolve name) fun _ ↦ Pending uses :=
  resolve_keeps (fun _ _ hd ↦ hd) name

theorem term_keepsStatements (statements : List Statement) (t : Term) :
    Ensures (·.body.statements = statements) (term none t) fun _ d ↦
      d.body.statements = statements :=
  term_keeps (fun name ↦ resolve_keeps (fun _ _ hd ↦ hd) name) (fun _ _ hd ↦ hd) none t

theorem arguments_keepStatements (statements : List Statement) (args : List (Argument Term)) :
    Ensures (·.body.statements = statements) (arguments none args) fun _ d ↦
      d.body.statements = statements :=
  arguments_keep (fun name ↦ resolve_keeps (fun _ _ hd ↦ hd) name) (fun _ _ hd ↦ hd) none args

theorem term_pending {uses : Body → List Use} (t : Term) :
    Ensures (Pending uses) (term none t) fun e d ↦ ∀ usage : Body → Usage,
      Pending (fun b ↦ uses b ++ e.usesAfterParts (usage b)) d := by
  intro d e d' hd hrun usage b
  have hstatements : d'.body.statements = d.body.statements :=
    term_keepsStatements _ t rfl hrun
  rw [hstatements, ← List.append_assoc]
  exact term_usesToo none nofun t 0 _ (hd b) hrun (usage b) fun _ ↦ nofun

theorem arguments_pending {uses : Body → List Use} (args : List (Argument Term))
    (usage : Argument Expr → Usage) :
    Ensures (Pending uses) (arguments none args) fun args d ↦
      Pending (fun b ↦ uses b ++ args.flatMap fun arg ↦ arg.value.usesAfterParts (usage arg)) d := by
  intro d args' d' hd hrun b
  have hstatements : d'.body.statements = d.body.statements :=
    arguments_keepStatements _ args rfl hrun
  rw [hstatements, ← List.append_assoc]
  exact arguments_uses none nofun args 0 _ usage (hd b) hrun fun _ _ _ ↦ nofun

/-- A statement uses what has been recorded for it. -/
theorem Pending.append {uses : Body → List Use} {d d' : MethodDraft} {s : Statement}
    (h : Pending uses d) (hs : ∀ b, s.usesAfterParts b = uses b)
    (hexprs : d'.body.exprs = d.body.exprs)
    (hstatements : d'.body.statements = d.body.statements ++ [s]) : Pending (fun _ ↦ []) d' := by
  intro b
  have huses := h b
  rw [← hs] at huses
  rw [Uses, hexprs, hstatements, List.flatMap_append, List.append_nil, List.flatMap_cons,
    List.flatMap_nil, List.append_nil]
  exact huses

theorem append_usesUp {uses : Body → List Use} {s : Statement}
    (hs : ∀ b, s.usesAfterParts b = uses b) :
    Ensures (Pending uses) (append s) fun _ ↦ Pending fun _ ↦ [] := by
  intro d a d' hd hrun
  cases hrun
  exact hd.append hs rfl rfl

theorem action_keepsUsedOnce : (a : Action) → KeepsUsedOnce (action a)
  | .expression value => (term_pending value).bind fun value ↦
      (append_usesUp fun b ↦ by simp [Statement.usesAfterParts, Statement.operands]).mono
        (fun _ hd ↦ hd fun _ ↦ .read) fun _ _ hd ↦ hd
  | .assign target value => (term_pending target).bind fun target ↦
      ((term_pending value).mono (fun _ hd ↦ hd fun _ ↦ .assignTarget) fun _ _ hd ↦ hd).bind
        fun value ↦
          (append_usesUp fun b ↦ by simp [Statement.usesAfterParts, Statement.operands]).mono
            (fun _ hd ↦ hd fun _ ↦ .read) fun _ _ hd ↦ hd
  | .compound target op value => (term_pending target).bind fun target ↦
      ((term_pending value).mono (fun _ hd ↦ hd fun _ ↦ .compoundTarget) fun _ _ hd ↦ hd).bind
        fun value ↦
          (append_usesUp fun b ↦ by simp [Statement.usesAfterParts, Statement.operands]).mono
            (fun _ hd ↦ hd fun _ ↦ .read) fun _ _ hd ↦ hd
  | .refLocal name readonly type init => by
    unfold action
    refine (resolve_keepsPending type).bind fun type ↦ (term_pending init).bind fun init ↦
      Ensures.bind ?_ fun bound ↦ bring_keepsWritten (fun _ _ ↦ Pending.of_body) _ _
    intro d bound d' hd hrun
    cases hrun
    exact (hd fun b ↦ .refLocalInit ((b.var d.body.vars.size).kind == .refLocal true)).append
      (fun b ↦ by simp [Statement.usesAfterParts, Statement.operands]) rfl rfl
  | .call callee args => (arguments_pending args fun arg ↦ .argument arg.modifier).bind fun args ↦
      append_usesUp fun b ↦ by
        simp [Statement.usesAfterParts, Statement.operands, List.flatMap_map]
  | .ret none => append_usesUp fun _ ↦ rfl
  | .ret (some value) => (term_pending value).bind fun value ↦
      (append_usesUp fun b ↦ by simp [Statement.usesAfterParts, Statement.operands]).mono
        (fun _ hd ↦ hd fun b ↦ .returned b.returns) fun _ _ hd ↦ hd

theorem method_keepsUsedOnce (m : MethodDecl) : KeepsUsedOnce (method m) :=
  method_keepsWritten (fun _ _ ↦ Pending.of_body) m action_keepsUsedOnce

end MethodDraft

/-- The uses in a body in the order in which they are checked. -/
def Body.usesAfterParts (b : Body) : List Use := b.statements.flatMap (·.usesAfterParts b)

/-- No two uses are of one expression, save passive ones of a placeholder. -/
def Body.UsedOnce (b : Body) : Prop := b.usesAfterParts.Pairwise Use.Apart

theorem Scenario.build_usedOnce {s : Scenario} {p : Program} (h : s.build = .ok p) :
    ∀ m ∈ p.methods, m.toBody.UsedOnce := by
  refine build_methods (fun d types draft hdraft ↦ ?_) h
  have hstart : MethodDraft.Pending (fun _ ↦ []) { types, body := { name := d.name } } :=
    fun _ ↦ .nil nofun
  have hdone := MethodDraft.method_keepsUsedOnce d hstart hdraft
  exact (List.append_nil _ ▸ (hdone draft.body).apart :)

end InlineArrays
