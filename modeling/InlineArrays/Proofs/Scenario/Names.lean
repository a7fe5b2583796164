import InlineArrays.Proofs.Scenario.Build
import Mathlib.Data.List.Nodup

/-!
# Names of variables

A variable is brought into scope under its own name as it is declared, and a name that is taken is
refused, so the variables of a method have distinct names.
-/

namespace InlineArrays

/-- No two variables have the same name. -/
def Body.Distinct (b : Body) : Prop :=
  ∀ v w, v < b.vars.size → w < b.vars.size → (b.var v).name = (b.var w).name → v = w

/-- The first variable of the name of a variable is that variable. -/
theorem Body.Distinct.eq_of_variableNamed? {b : Body} (hb : b.Distinct) {v w : VariableId}
    (hv : v < b.vars.size) (h : b.variableNamed? (b.var v).name = some w) : w = v := by
  obtain ⟨hw, hname, -⟩ := Array.findIdx?_eq_some_iff_getElem.1 h
  refine hb w v hw hv ?_
  have hget : b.var w = b.vars[w] := by simp [Body.var, hw]
  rw [hget]
  exact eq_of_beq hname

namespace MethodDraft

/-- The names in scope are distinct, and each variable is in scope under its own. -/
structure Named (d : MethodDraft) : Prop where
  nodup : (d.names.map (·.1)).Nodup
  mem : ∀ v < d.body.vars.size, ((d.body.var v).name, v) ∈ d.names

theorem Named.distinct {d : MethodDraft} (hd : d.Named) : d.body.Distinct := by
  intro v w hv hw hname
  have hentry := List.inj_on_of_nodup_map hd.nodup (hd.mem v hv) (hd.mem w hw) hname
  exact congrArg Prod.snd hentry

/-- A variable has been declared under the next id and is not yet in scope. -/
def Declares (v : Variable) (id : VariableId) (d : MethodDraft) : Prop :=
  ∃ before : MethodDraft, before.Named ∧ d.names = before.names ∧ id = before.body.vars.size ∧
    d.body.vars = before.body.vars.push v

theorem bring_named (v : Variable) (id : VariableId) :
    Ensures (Declares v id) (bring v.name id) fun _ ↦ Named := by
  rintro d a d' ⟨before, hbefore, hnames, rfl, hvars⟩ hrun
  unfold bring at hrun
  split at hrun
  · cases hrun
  · rename_i hnew
    cases hrun
    rw [hnames, List.any_eq_true] at hnew
    refine ⟨?_, fun w hw ↦ ?_⟩
    · dsimp only
      rw [hnames, List.map_append, List.nodup_append]
      refine ⟨hbefore.nodup, by simp, fun name hname name' hname' heq ↦ hnew ?_⟩
      obtain ⟨entry, hentry, rfl⟩ := List.mem_map.1 hname
      rw [List.map_singleton, List.mem_singleton] at hname'
      exact ⟨entry, hentry, by simp [heq, hname']⟩
    · dsimp only at hw ⊢
      rw [hnames, List.mem_append, List.mem_singleton]
      rw [hvars, Array.size_push] at hw
      rcases Nat.lt_succ_iff_lt_or_eq.1 hw with hlt | rfl
      · have hsame : d.body.var w = before.body.var w := by
          simp [Body.var, hvars, Array.getElem?_push, Nat.ne_of_lt hlt]
        rw [hsame]
        exact .inl (hbefore.mem w hlt)
      · have hlast : d.body.var before.body.vars.size = v := by simp [Body.var, hvars]
        rw [hlast]
        exact .inr rfl

/-- Steps that keep the variables named. -/
abbrev KeepsNames {α : Type} (act : Build α) : Prop := Ensures Named act fun _ ↦ Named

theorem resolve_keepsNames (name : String) : KeepsNames (resolve name) :=
  resolve_keeps (fun _ _ hd ↦ ⟨hd.nodup, hd.mem⟩) name

theorem term_keepsNames (receiver : Option Expr) (t : Term) : KeepsNames (term receiver t) :=
  term_keeps resolve_keepsNames (fun _ _ hd ↦ ⟨hd.nodup, hd.mem⟩) receiver t

theorem append_keepsNames (s : Statement) : KeepsNames (append s) := by
  intro d a d' hd hrun
  cases hrun
  exact ⟨hd.nodup, hd.mem⟩

theorem declares_of_vars {v : Variable} {change : Body → VariableId × Body}
    (hid : ∀ b, (change b).1 = b.vars.size) (hvars : ∀ b, (change b).2.vars = b.vars.push v) :
    Ensures Named (onBody change) (Declares v) := by
  intro d id d' hd hrun
  cases hrun
  exact ⟨d, hd, rfl, hid d.body, hvars d.body⟩

theorem declare_keepsNames (v : Variable) : KeepsNames (declare v) :=
  (declares_of_vars (v := v) (fun _ ↦ rfl) fun _ ↦ rfl).bind fun id ↦
    (bring_named v id).bind fun _ ↦ .pure fun _ hd ↦ hd

theorem action_keepsNames : (a : Action) → KeepsNames (action a)
  | .expression value => (term_keepsNames none value).bind fun _ ↦ append_keepsNames _
  | .assign target value => (term_keepsNames none target).bind fun _ ↦
      (term_keepsNames none value).bind fun _ ↦ append_keepsNames _
  | .compound target _ value => (term_keepsNames none target).bind fun _ ↦
      (term_keepsNames none value).bind fun _ ↦ append_keepsNames _
  | .refLocal name readonly type init => (resolve_keepsNames type).bind fun type ↦
      (term_keepsNames none init).bind fun _ ↦
        (declares_of_vars (v := { name, kind := .refLocal readonly, type }) (fun _ ↦ rfl)
          fun _ ↦ rfl).bind fun bound ↦ bring_named _ bound
  | .call _ args => (arguments_keep resolve_keepsNames (fun _ _ hd ↦ ⟨hd.nodup, hd.mem⟩)
      none args).bind fun _ ↦ append_keepsNames _
  | .ret none => append_keepsNames _
  | .ret (some value) => (term_keepsNames none value).bind fun _ ↦ append_keepsNames _

theorem owner_keepsNames (o : Option OwnerDecl) : KeepsNames (owner o) := by
  cases o with
  | none => exact .pure fun _ hd ↦ hd
  | some o =>
    exact (resolve_keepsNames o.type).bind fun type ↦
      (declares_of_vars (v := { name := "this", kind := .receiver, type }) (fun _ ↦ rfl)
        fun _ ↦ rfl).bind fun receiver ↦ bring_named _ receiver

theorem method_keepsNames (m : MethodDecl) : KeepsNames (method m) := by
  refine method_keeps m (owner_keepsNames m.owner) resolve_keepsNames (fun type d _ d' hd hrun ↦ ?_)
    (fun p ↦ ?_) (fun l ↦ ?_) action_keepsNames
  · cases hrun
    exact ⟨hd.nodup, hd.mem⟩
  · exact (resolve_keepsNames p.type).bind fun _ ↦ (declare_keepsNames _).bind fun _ ↦
      .pure fun _ hd ↦ hd
  · exact (resolve_keepsNames l.type).bind fun _ ↦ (declare_keepsNames _).bind fun _ ↦
      .pure fun _ hd ↦ hd

end MethodDraft

/-- The variables of each method of a program have distinct names. -/
theorem Scenario.build_distinct {s : Scenario} {p : Program} (h : s.build = .ok p) :
    ∀ m ∈ p.methods, m.toBody.Distinct :=
  build_methods (fun d _ _ hdraft ↦
    (MethodDraft.method_keepsNames d ⟨by simp, by simp⟩ hdraft).distinct) h

end InlineArrays
