import InlineArrays.Proofs.Evaluation.Agreement

/-!
# Receivers that are written out

By induction on an access, it evaluates as it does with its receiver written out, in situations where
receivers that stand against each other have one value.
-/

namespace InlineArrays

open Context

variable {c c' : Context} {σ σ' : Situation} {fits : Prop} {e x x' r r' : Expr} {Γ : ReceiverPairs}

/-- Receivers that stand against each other have one value, and the one that is written out has the
value that it has been tested with; `fits` makes it a value of its type's shape. -/
structure ReceiverPairs.Holds (Γ : ReceiverPairs) (c : Context) (e : Expr) (fits : Prop)
    (σ σ' : Situation) : Prop where
  bound : ∀ r r', (r, some r') ∈ Γ →
    ∃ v, σ.receiver? r.id = some v ∧ σ'.receiver? r'.id = some v
  written : (e, none) ∈ Γ → ∃ v, σ.receiver? e.id = some v ∧ c.valueOf σ e = .ok v ∧
    (fits → c.types.Fits (c.typeOf e) v)

theorem Paired.within (h : Paired c c' σ σ') (id id' : ExprId) (v : Value) :
    Paired c c' (σ.within id v) (σ'.within id' v) :=
  ⟨h.alongside, h.regular, h.regular', h.memory, h.frame⟩

/-- The receiver that is written out does not depend on those bound around it. -/
theorem SameChain.valueOf_within (he : SameChain e e) (hc : c.Regular) (hrecords : c.method.Records e)
    (id : ExprId) (v : Value) : c.valueOf (σ.within id v) e = c.valueOf σ e := by
  have hpair : Paired c c σ (σ.within id v) := ⟨.refl c, hc, hc, rfl, rfl⟩
  rw [valueOf, valueOf, (he.locationOf_eq hpair hrecords hrecords).1]
  rfl

namespace ReceiverPairs.Holds

/-- In an access, its receiver is bound. -/
theorem within (h : Γ.Holds c e fits σ σ') (he : SameChain e e) (hc : c.Regular)
    (hrecords : c.method.Records e) (v : Value) :
    (Γ.bind r r').Holds c e fits (σ.within r.id v) (σ'.within r'.id v) where
  bound s s' hs := by
    rcases List.mem_cons.1 hs with hs | hs
    · cases hs
      exact ⟨v, if_pos rfl, if_pos rfl⟩
    · obtain ⟨hs, hne⟩ := List.mem_filter.1 hs
      obtain ⟨w, hw, hw'⟩ := h.bound s s' hs
      simp only [Option.all_some, Bool.and_eq_true, bne_iff_ne, ne_eq] at hne
      exact ⟨w, (if_neg hne.1).trans hw, (if_neg hne.2).trans hw'⟩
  written hs := by
    rcases List.mem_cons.1 hs with hs | hs
    · cases hs
    · obtain ⟨hs, hne⟩ := List.mem_filter.1 hs
      obtain ⟨w, hw, hvalue, hwhole⟩ := h.written hs
      simp only [Option.all_none, Bool.and_true, bne_iff_ne, ne_eq] at hne
      exact ⟨w, (if_neg hne).trans hw, (he.valueOf_within hc hrecords r.id v).trans hvalue, hwhole⟩

end ReceiverPairs.Holds

/-! ## Bounds of ranges -/

/-- Bounds that are both omitted, or agree. -/
inductive BoundsAgree (P : Expr → Expr → Prop) : Option Expr → Option Expr → Prop
  | omitted : BoundsAgree P none none
  | given {x x' : Expr} (h : P x x') : BoundsAgree P (some x) (some x')

theorem BoundsAgree.intro {P : Expr → Expr → Prop} {b b' : Option Expr} (h : b.isSome = b'.isSome)
    (hP : ∀ x x', b = some x → b' = some x' → P x x') : BoundsAgree P b b' := by
  cases b <;> cases b'
  · exact .omitted
  · cases h
  · cases h
  · exact .given (hP _ _ rfl rfl)

/-- What is shown of an expression and of what stands against it. -/
structure AgreesThroughout (c c' : Context) (σ σ' : Situation) (fits : Prop) (x x' : Expr) : Prop
    extends Agrees c c' σ σ' fits x x', AgreesAsArgument c c' σ σ' fits x x' where
  matching : c.Matches c' x x'

namespace BoundsAgree

variable {b b' : Option Expr} (h : BoundsAgree (AgreesThroughout c c' σ σ' fits) b b')
include h

theorem boundOf : Agree fits (c.boundOf σ b) (c'.boundOf σ' b') := by
  cases h with
  | omitted => exact .ok _
  | given h => exact h.bound

theorem indexOf (isStop : Bool) : Agree fits (c.indexOf σ isStop b) (c'.indexOf σ' isStop b') := by
  cases h with
  | omitted => exact .ok _
  | given h =>
    rw [indexOf_some, indexOf_some]
    refine h.value.bind fun v _ _ ↦ .of_eq ?_
    rw [indexOfValue, indexOfValue, h.matching.type]

end BoundsAgree

namespace AgreesThroughout

variable {id id' : ExprId}

/-- What has no address and is used by its value. -/
theorem of_value (hpair : Paired c c' σ σ') (hmatch : c.Matches c' x x')
    (hvalue : Agree fits (c.valueOf σ x) (c'.valueOf σ' x')) (hx : ¬ c.IsStored x)
    (hx' : ¬ c'.IsStored x') (hvar : x.isVariable = false) (hvar' : x'.isVariable = false)
    (hform : x.isByValue) (hform' : x'.isByValue) : AgreesThroughout c c' σ σ' fits x x' :=
  ⟨.of_value hvalue hx hx' hvar hvar', .of_value hpair hmatch hvalue hform hform', hmatch⟩

theorem fromEnd {count count' : Expr} (h : AgreesThroughout c c' σ σ' fits count count')
    (hmatch : c.Matches c' (.fromEnd id count) (.fromEnd id' count')) :
    AgreesThroughout c c' σ σ' fits (.fromEnd id count) (.fromEnd id' count') where
  toAgrees := .of_value (by
    rw [valueOf_fromEnd, valueOf_fromEnd]
    exact h.value.bindSame _) (not_isStored fun _ _ ↦ rfl) (not_isStored fun _ _ ↦ rfl) rfl rfl
  subscript _ _ := by
    rw [subscriptOf_fromEnd, subscriptOf_fromEnd]
    exact h.value.map _
  bound := by
    rw [boundOf_fromEnd, boundOf_fromEnd]
    exact h.value.map _
  matching := hmatch

theorem range {start stop start' stop' : Option Expr}
    (hstart : BoundsAgree (AgreesThroughout c c' σ σ' fits) start start')
    (hstop : BoundsAgree (AgreesThroughout c c' σ σ' fits) stop stop')
    (hmatch : c.Matches c' (.range id start stop) (.range id' start' stop')) :
    AgreesThroughout c c' σ σ' fits (.range id start stop) (.range id' start' stop') := by
  have hvalue : Agree fits (c.valueOf σ (.range id start stop))
      (c'.valueOf σ' (.range id' start' stop')) := by
    rw [valueOf_range, valueOf_range]
    exact (hstart.indexOf false).bind fun v _ _ ↦ (hstop.indexOf true).bindSame _
  refine ⟨.of_value hvalue (not_isStored fun _ _ ↦ rfl) (not_isStored fun _ _ ↦ rfl) rfl rfl,
    ⟨fun _ _ ↦ hstart.boundOf.bind fun first _ _ ↦ hstop.boundOf.bindSame _, ?_⟩, hmatch⟩
  rw [boundOf_value (e := .range id start stop) nofun,
    boundOf_value (e := .range id' start' stop') nofun]
  exact hvalue.map _

/-- A conditional access: the receivers are null together, and otherwise the accesses agree. -/
theorem conditional {access access' : Expr} (hpair : Paired c c' σ σ')
    (hmatch : c.Matches c' (.conditional id r access) (.conditional id' r' access'))
    (hr : Agree fits (c.valueOf σ r) (c'.valueOf σ' r'))
    (haccess : ∀ v, Agree fits (c.valueOf (σ.within r.id v) access)
      (c'.valueOf (σ'.within r'.id v) access')) :
    AgreesThroughout c c' σ σ' fits (.conditional id r access) (.conditional id' r' access') := by
  refine .of_value hpair hmatch ?_ (not_isStored fun _ _ ↦ rfl) (not_isStored fun _ _ ↦ rfl) rfl
    rfl rfl rfl
  rw [valueOf_conditional, valueOf_conditional]
  refine hr.bind fun v _ _ ↦ ?_
  split
  · exact .ok _
  · exact haccess v

/-- The receiver, remembered in the one and written out in the other. -/
theorem written {v : Value} (hpair : Paired c c' σ σ') (hsame : SameChain e x')
    (he : c.method.Records e) (hx' : c'.method.Records x')
    (hmatch : c.Matches c' (.placeholder id e) x') (hbound : σ.receiver? e.id = some v)
    (hvalue : c.valueOf σ e = .ok v) (hfits : fits → c.types.Fits (c.typeOf e) v) :
    AgreesThroughout c c' σ σ' fits (.placeholder id e) x' := by
  obtain ⟨hlocation, -⟩ := hsame.locationOf_eq hpair he hx'
  have hplaceholder : c.valueOf σ (.placeholder id e) = .ok v := valueOf_placeholder hbound
  have hvalue' : c'.valueOf σ' x' = .ok v := by
    rw [← hvalue, valueOf, valueOf, hlocation, hpair.memory]
  have hread (l : Location) (hl : c'.locationOf σ' x' = .ok l) : l.read σ'.memory = .ok v := by
    rw [valueOf, hl] at hvalue'
    exact hvalue'
  have hform : x'.isByValue := by cases hsame <;> rfl
  have hagree : Agree fits (c.valueOf σ (.placeholder id e)) (c'.valueOf σ' x') :=
    .of_eq (hvalue'.trans hplaceholder.symm)
  refine ⟨⟨hagree, fun h ↦ absurd h (not_isStored fun _ _ ↦ rfl), fun hf _ _ _ l hl ↦
    ⟨v, hread l hl, hfits hf⟩, .inr ⟨fun _ ↦ isProper_of_locationOf (e := .placeholder id e) rfl,
      fun l hl ↦ Location.isProper_of_read (hread l hl)⟩⟩,
    .of_value hpair hmatch hagree rfl hform, hmatch⟩

end AgreesThroughout

/-- An access evaluates as it does with its receiver written out; the induction is on what is replaced
in, in whatever situation its receivers are bound in. -/
theorem Replaces.agrees (h : Replaces e Γ x x') (hpair : Paired c c' σ σ') (he : SameChain e e)
    (hrecords : c.method.Records e) (hΓ : Γ.Typed c c') (hσ : Γ.Holds c e fits σ σ')
    (hx : c.Approves x) (hx' : c'.Approves x') : AgreesThroughout c c' σ σ' fits x x' := by
  have halong := hpair.alongside
  have hc := hpair.regular
  have hc' := hpair.regular'
  induction h generalizing σ σ' with
  | @var Γ id id' v =>
    obtain ⟨hlocation, -⟩ :=
      (@SameChain.var id id' v).locationOf_eq hpair hx.records hx'.records
    have hstorage := halong.storageOf?_var_agree (hc.resolved hx.records).2
      (hc'.resolved hx'.records).2
    have hagree : Agrees c c' σ σ' fits (.var id v) (.var id' v) :=
      .of_location hpair.memory hlocation hstorage rfl
    have hmatch := Matches.var halong hc hc' hx.records hx'.records
    exact ⟨hagree, .of_value hpair hmatch hagree.value rfl rfl, hmatch⟩
  | int | bool | string =>
    exact .of_value hpair (.of_not_isStored rfl (not_isStored fun _ _ ↦ rfl)) (.refl _)
      (not_isStored fun _ _ ↦ rfl) (not_isStored fun _ _ ↦ rfl) rfl rfl rfl
      rfl
  | @default Γ id id' type =>
    have hlocation : c'.locationOf σ' (.default id' type) = c.locationOf σ (.default id type) := by
      simp only [locationOf, halong.types]
    have hagree : Agrees c c' σ σ' fits (.default id type) (.default id' type) :=
      .of_location hpair.memory hlocation
        (halong.storageOf_default_eq hc hc' hx.records hx'.records) rfl
    have hmatch := Matches.default halong hc hc' hx.records hx'.records
    exact ⟨hagree, .of_value hpair hmatch hagree.value rfl rfl, hmatch⟩
  | field _ ih =>
    have hr := ih hpair hΓ hσ (hx.field hc) (hx'.field hc')
    have hagree := hr.toAgrees.field hpair hr.matching hx hx'
    have hmatch := hr.matching.field halong hc hc' hx.records hx'.records
    exact ⟨hagree, .of_value hpair hmatch hagree.value rfl rfl, hmatch⟩
  | fromEnd _ ih =>
    exact (ih hpair hΓ hσ (hx.count hc) (hx'.count hc')).fromEnd
      (.of_not_isStored rfl (not_isStored fun _ _ ↦ rfl))
  | range hstart hstop _ _ ihstart ihstop =>
    refine .range (.intro hstart fun y y' hy hy' ↦ ?_) (.intro hstop fun y y' hy hy' ↦ ?_)
      (.of_not_isStored rfl (not_isStored fun _ _ ↦ rfl))
    · subst hy hy'
      exact ihstart y y' rfl rfl hpair hΓ hσ (hx.start hc) (hx'.start hc')
    · subst hy hy'
      exact ihstop y y' rfl rfl hpair hΓ hσ (hx.stop hc) (hx'.stop hc')
  | @element Γ id id' r r' arg arg' _ _ ihr iharg =>
    obtain ⟨⟨a, hbind⟩, -⟩ := hx.accesses _ (Expr.mem_parts_self _) rfl
    obtain ⟨⟨a', hbind'⟩, -⟩ := hx'.accesses _ (Expr.mem_parts_self _) rfl
    have hr := ihr hpair hΓ hσ (hx.receiver hc) (hx'.receiver hc')
    have harg := iharg hpair hΓ hσ (hx.argument hc List.mem_cons_self)
      (hx'.argument hc' List.mem_cons_self)
    have hslice : a'.isSlice = a.isSlice := by
      rw [Bool.eq_iff_iff, isSlice_iff hc hbind, isSlice_iff hc' hbind', harg.matching.type]
    obtain ⟨-, -, -, _, hsingle, hform, -⟩ := bind_eq_ok hbind
    obtain ⟨-, -, -, _, hsingle', hform', -⟩ := bind_eq_ok hbind'
    cases hsingle
    cases hsingle'
    have hpaired : AccessPair c c' σ σ' fits id id' r r' [arg] [arg'] a a' :=
      { hpair with
        approves := hx, approves' := hx', bind := hbind, bind' := hbind', receiver := hr.toAgrees
        matching := hr.matching, argument := harg.subscript hform hform', isSlice := hslice }
    have hagree := hpaired.agrees
    have hmatch := hr.matching.element halong hc hc' hx hx' hbind hbind' hslice
    exact ⟨hagree, .of_value hpair hmatch hagree.value rfl rfl, hmatch⟩
  | @conditional Γ id id' r r' access access' hreplaces haccess ihr ihaccess =>
    have hr := ihr hpair hΓ hσ (hx.tested hc) (hx'.tested hc')
    exact .conditional hpair
      ((hreplaces.conditional haccess).matches_of_approves halong hc hc' hΓ hx hx') hr.value fun v ↦
        (ihaccess (hpair.within r.id r'.id v) (hΓ.bind hr.matching.type) (hσ.within he hc hrecords v)
          (hx.access hc) (hx'.access hc')).value
  | @placeholder Γ id id' r r' hmem =>
    obtain ⟨v, hv, hv'⟩ := hσ.bound _ _ hmem
    have hvalue : c'.valueOf σ' (.placeholder id' r') = c.valueOf σ (.placeholder id r) :=
      (valueOf_placeholder hv').trans (valueOf_placeholder hv).symm
    exact .of_value hpair ((Replaces.placeholder (e := e) hmem).matches_of_approves halong hc hc' hΓ hx hx')
      (.of_eq hvalue) (not_isStored fun _ _ ↦ rfl) (not_isStored fun _ _ ↦ rfl) rfl rfl
      rfl rfl
  | written hmem hsame =>
    obtain ⟨v, hbound, hvalue, hfits⟩ := hσ.written hmem
    exact .written hpair hsame hrecords hx'.records
      ((Replaces.written hmem hsame).matches_of_approves halong hc hc' hΓ hx hx') hbound hvalue hfits

end InlineArrays
