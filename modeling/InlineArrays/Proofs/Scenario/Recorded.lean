import InlineArrays.Proofs.Scenario.Build
import InlineArrays.Usage

/-!
# Orderly bodies

A body that was built from a scenario has recorded all expressions with the parts they are made of,
each under its own id.  Every ref local is bound by one statement, to something that was there
before it.
-/

namespace InlineArrays

namespace Expr

/-- What an expression is made of; a placeholder is made of the receiver it stands for. -/
def children : Expr → List Expr
  | .field _ receiver _ | .placeholder _ receiver => [receiver]
  | .fromEnd _ count => [count]
  | .range _ start stop => start.toList ++ stop.toList
  | .element _ receiver args => receiver :: args.map (·.value)
  | .span _ operand _ => [operand]
  | .conditional _ receiver access => [receiver, access]
  | .var .. | .call .. | .int .. | .bool .. | .string .. | .default .. => []

/-- The variable in whose storage that of an expression lies. -/
def root? : Expr → Option VariableId
  | .var _ target => some target
  | .field _ receiver _ | .element _ receiver _ | .span _ receiver _ => receiver.root?
  | _ => none
termination_by structural e => e

end Expr

/-- The expressions that a statement is made of. -/
def Statement.exprs : Statement → List Expr
  | .expression value => [value]
  | .assign target value | .compound target _ value => [target, value]
  | .refLocal _ init => [init]
  | .call _ args => args.map (·.value)
  | .ret value => value.toList

namespace Body

variable {b : Body} {e : Expr}

def Records (b : Body) (e : Expr) : Prop := b.exprs[e.id]? = some e

structure Orderly (b : Body) : Prop where
  ids : ∀ (i : Nat) e, b.exprs[i]? = some e → e.id = i
  children : ∀ e, b.Records e → ∀ part ∈ e.children, b.Records part
  roots : ∀ id v, b.Records (.var id v) → v < b.vars.size
  exprs : ∀ s ∈ b.statements, ∀ e ∈ s.exprs, b.Records e
  refLocals : ∀ v init, .refLocal v init ∈ b.statements → v < b.vars.size ∧
    b.refLocalInit? v = some init ∧ ∀ w, init.root? = some w → w < v
  receiver : ∀ v, v < b.vars.size → (b.var v).kind = .receiver → v = 0

theorem Records.eq_of_id (he : b.Records e) {e' : Expr} (he' : b.Records e') (h : e.id = e'.id) :
    e = e' := by
  rw [Records, h] at he
  rw [Records, he] at he'
  exact Option.some.inj he'

/-- The variable at the root of a recorded expression is one of the body. -/
theorem Orderly.root?_lt (hb : b.Orderly) : (e : Expr) → b.Records e → {v : VariableId} →
    e.root? = some v → v < b.vars.size
  | .var id target, he, _, h => by
    cases h
    exact hb.roots id _ he
  | .field _ receiver _, he, _, h | .element _ receiver _, he, _, h
  | .span _ receiver _, he, _, h =>
    hb.root?_lt receiver (hb.children _ he receiver (by simp [Expr.children])) h

/-! ## Recording -/

section

variable {make : ExprId → Expr}

theorem Records.record (he : b.Records e) : (b.record make).2.Records e := by
  have hlt : e.id < b.exprs.size := (Array.getElem?_eq_some_iff.1 he).1
  unfold Records Body.record
  dsimp only
  rw [Array.getElem?_push, if_neg (Nat.ne_of_lt hlt)]
  exact he

theorem records_record (hid : ∀ id, (make id).id = id) :
    (b.record make).2.Records (b.record make).1 := by
  unfold Records Body.record
  simp [hid]

/-- A recorded expression was recorded before or is the new one. -/
theorem records_of_record (h : (b.record make).2.Records e) :
    b.Records e ∨ e = (b.record make).1 := by
  unfold Records Body.record at h
  dsimp only at h
  rw [Array.getElem?_push] at h
  split at h
  · exact .inr (Option.some.inj h).symm
  · exact .inl h

theorem Orderly.record (hb : b.Orderly) (hid : ∀ id, (make id).id = id)
    (hparts : ∀ part ∈ (b.record make).1.children, b.Records part)
    (hvariable : ∀ id v, (b.record make).1 = .var id v → v < b.vars.size) :
    (b.record make).2.Orderly where
  ids i e he := by
    unfold Body.record at he
    dsimp only at he
    rw [Array.getElem?_push] at he
    split at he
    · cases he
      rename_i hi
      rw [hid, hi]
    · exact hb.ids i e he
  children e he part hpart := by
    rcases records_of_record he with he | rfl
    · exact (hb.children e he part hpart).record
    · exact (hparts part hpart).record
  roots id v he := by
    rcases records_of_record he with he | he
    · exact hb.roots id v he
    · exact hvariable id v he.symm
  exprs s hs e he := (hb.exprs s hs e he).record
  refLocals := hb.refLocals
  receiver := hb.receiver

end

/-! ## Declaring -/

theorem var_declare {v : Variable} {w : VariableId} (h : w < b.vars.size) :
    (b.declare v).2.var w = b.var w := by
  simp [declare, Body.var, Array.getElem?_push, Nat.ne_of_lt h]

theorem var_declare_self {v : Variable} : (b.declare v).2.var b.vars.size = v := by
  simp [declare, Body.var]

theorem Orderly.declare (hb : b.Orderly) {v : Variable}
    (hreceiver : v.kind = .receiver → b.vars.size = 0) : (b.declare v).2.Orderly where
  ids := hb.ids
  children := hb.children
  roots id w he := by
    have hlt : w < b.vars.size := hb.roots id w he
    simp only [Body.declare, Array.size_push]
    exact Nat.lt_succ_of_lt hlt
  exprs := hb.exprs
  refLocals w init hs := by
    obtain ⟨hlt, hinit, hroot⟩ := hb.refLocals w init hs
    refine ⟨?_, hinit, hroot⟩
    simp only [Body.declare, Array.size_push]
    exact Nat.lt_succ_of_lt hlt
  receiver w hw hkind := by
    simp only [Body.declare, Array.size_push] at hw
    rcases Nat.lt_succ_iff_lt_or_eq.1 hw with hlt | rfl
    · rw [var_declare hlt] at hkind
      exact hb.receiver w hlt hkind
    · rw [var_declare_self] at hkind
      exact hreceiver hkind

/-! ## Statements -/

theorem Orderly.append (hb : b.Orderly) {s : Statement} (hs : ∀ e ∈ s.exprs, b.Records e)
    (hlocal : ∀ v init, s ≠ .refLocal v init) : (b.append s).Orderly where
  ids := hb.ids
  children := hb.children
  roots := hb.roots
  exprs s' hs' := by
    rcases List.mem_append.1 hs' with hs' | hs'
    · exact hb.exprs s' hs'
    · rw [List.mem_singleton.1 hs']
      exact hs
  refLocals v init hmem := by
    rcases List.mem_append.1 hmem with hmem | hmem
    · obtain ⟨hlt, hinit, hroot⟩ := hb.refLocals v init hmem
      refine ⟨hlt, ?_, hroot⟩
      unfold refLocalInit? at hinit ⊢
      rw [Body.append, List.findSome?_append, hinit]
      rfl
    · exact absurd (List.mem_singleton.1 hmem).symm (hlocal v init)
  receiver := hb.receiver

/-- A new ref local is bound by the statement that declares it. -/
theorem Orderly.bind (hb : b.Orderly) {v : Variable} {init : Expr} (hinit : b.Records init)
    (hkind : v.kind ≠ .receiver) :
    ((b.declare v).2.append (.refLocal b.vars.size init)).Orderly where
  ids := hb.ids
  children := hb.children
  roots := (hb.declare fun h ↦ absurd h hkind).roots
  exprs s hs := by
    rcases List.mem_append.1 hs with hs | hs
    · exact hb.exprs s hs
    · rw [List.mem_singleton.1 hs]
      intro e he
      rw [List.mem_singleton.1 he]
      exact hinit
  refLocals w init' hmem := by
    have hold {w : VariableId} {init : Expr} (hmem : .refLocal w init ∈ b.statements) :=
      hb.refLocals w init hmem
    rcases List.mem_append.1 hmem with hmem | hmem
    · obtain ⟨hlt, hfirst, hroot⟩ := (hb.declare (v := v) fun h ↦ absurd h hkind).refLocals w init' hmem
      refine ⟨hlt, ?_, hroot⟩
      unfold refLocalInit? at hfirst ⊢
      rw [Body.append, List.findSome?_append, hfirst]
      rfl
    · cases List.mem_singleton.1 hmem
      refine ⟨by simp [Body.append, Body.declare], ?_, fun w hw ↦ hb.root?_lt init hinit hw⟩
      have hnone : b.refLocalInit? b.vars.size = none := by
        refine List.findSome?_eq_none_iff.2 fun s hs ↦ ?_
        cases s with
        | refLocal w init =>
          have hlt : w < b.vars.size := (hold hs).1
          exact if_neg (Nat.ne_of_lt hlt)
        | _ => rfl
      unfold refLocalInit? at hnone ⊢
      rw [Body.append, Body.declare, List.findSome?_append, hnone]
      simp
  receiver := (hb.declare fun h ↦ absurd h hkind).receiver

end Body

/-! ## Drafts -/

namespace MethodDraft

/-- The body of the method `n` is orderly so far, the names in scope are those of its variables, and
the expressions `known` are recorded. -/
structure Orderly (n : String) (known : List Expr) (d : MethodDraft) : Prop where
  name_eq : d.body.name = n
  body : d.body.Orderly
  names : ∀ entry ∈ d.names, entry.2 < d.body.vars.size
  known : ∀ e ∈ known, d.body.Records e

variable {n : String} {known : List Expr}

theorem Orderly.mono {more : List Expr} {d : MethodDraft} (h : d.Orderly n more)
    (hknown : known ⊆ more) : d.Orderly n known :=
  ⟨h.name_eq, h.body, h.names, fun e he ↦ h.known e (hknown he)⟩

/-- A step that yields a recorded expression. -/
abbrev Records (n : String) (known : List Expr) (act : Build Expr) : Prop :=
  Ensures (Orderly n known) act fun e ↦ Orderly n (e :: known)

theorem Orderly.withTypes {d : MethodDraft} (h : d.Orderly n known) (types : TypeTable) :
    { d with types }.Orderly n known := ⟨h.name_eq, h.body, h.names, h.known⟩

theorem resolve_keepsOrder (name : String) :
    Ensures (Orderly n known) (resolve name) fun _ ↦ Orderly n known :=
  resolve_keeps (fun _ types hd ↦ hd.withTypes types) name

theorem variableNamed_lt (name : String) :
    Ensures (Orderly n known) (variableNamed name) fun v d ↦ d.Orderly n known ∧ v < d.body.vars.size := by
  intro d v d' hd hrun
  unfold variableNamed at hrun
  split at hrun
  · rename_i hv
    cases hrun
    obtain ⟨entry, hentry, rfl⟩ := Option.map_eq_some_iff.1 hv
    exact ⟨hd, hd.names entry (List.mem_of_find?_eq_some hentry)⟩
  · cases hrun

/-- Recording what is made of recorded expressions. -/
theorem record_records {make : ExprId → Expr} (hid : ∀ id, (make id).id = id)
    (hparts : ∀ id, (make id).children ⊆ known) (hvariable : ∀ id, (make id).isVariable = false) :
    Records n known (record make) := by
  intro d e d' hd hrun
  cases hrun
  refine ⟨hd.name_eq, hd.body.record hid (fun part hpart ↦ hd.known part (hparts _ hpart))
    (fun id v h ↦ ?_), hd.names, fun e he ↦ ?_⟩
  · have hmake : (d.body.record make).1.isVariable = false := hvariable _
    rw [h] at hmake
    cases hmake
  rcases List.mem_cons.1 he with rfl | he
  · exact Body.records_record hid
  · exact (hd.known e he).record

theorem recordVariable_records {v : VariableId} :
    Ensures (fun d ↦ d.Orderly n known ∧ v < d.body.vars.size) (record (.var · v)) fun e ↦
      Orderly n (e :: known) := by
  intro d e d' hd hrun
  cases hrun
  have hbody : (d.body.record (.var · v)).2.Orderly := by
    refine hd.1.body.record (fun _ ↦ rfl) (by simp [Body.record, Expr.children]) fun id w h ↦ ?_
    cases h
    exact hd.2
  refine ⟨hd.1.name_eq, hbody, hd.1.names, fun e he ↦ ?_⟩
  rcases List.mem_cons.1 he with rfl | he
  · have hvariable : (d.body.record (.var · v)).2.Records (d.body.record (.var · v)).1 :=
      Body.records_record fun _ ↦ rfl
    exact hvariable
  · have hrecorded : (d.body.record (.var · v)).2.Records e := (hd.1.known e he).record
    exact hrecorded

theorem recordFields_records {e : Expr} (he : e ∈ known) (names : List String) :
    Records n known (onBody (·.recordFields e names)) := by
  induction names generalizing e known with
  | nil =>
    intro d e' d' hd hrun
    cases hrun
    refine ⟨hd.name_eq, hd.body, hd.names, fun e' he' ↦ ?_⟩
    rcases List.mem_cons.1 he' with rfl | he'
    · exact hd.known _ he
    · exact hd.known e' he'
  | cons name names ih =>
    intro d e' d' hd hrun
    have hfield : Records n known (record (.field · e name)) :=
      record_records (fun _ ↦ rfl) (fun _ ↦ by simpa [Expr.children] using he) fun _ ↦ rfl
    have hmid : Orderly _ _ _ := hfield hd rfl
    exact (ih List.mem_cons_self hmid hrun).mono
      (List.cons_subset_cons _ (List.subset_cons_self _ _))

theorem known_nil : Ensures (Orderly n known) (Pure.pure none : Build (Option Expr)) fun bound ↦
    Orderly n (bound.toList ++ known) := .pure fun _ hd ↦ hd

mutual

theorem term_records (receiver : Option Expr) : (t : Term) → (known : List Expr) →
    (∀ e, receiver = some e → e ∈ known) → Records n known (term receiver t)
  | .path text, known, _ => by
    unfold term
    refine (variableNamed_lt _).bind fun root ↦ recordVariable_records.bind fun base ↦ ?_
    exact (recordFields_records List.mem_cons_self _).mono (fun _ hd ↦ hd) fun _ _ hd ↦
      hd.mono (List.cons_subset_cons _ (List.subset_cons_self _ _))
  | .field of name, known, hreceiver => by
    unfold term
    exact (term_records receiver of known hreceiver).bind fun of ↦
      (record_records (fun _ ↦ rfl) (by simp [Expr.children]) fun _ ↦ rfl).mono (fun _ hd ↦ hd) fun _ _ hd ↦
        hd.mono (List.cons_subset_cons _ (List.subset_cons_self _ _))
  | .int _, _, _ | .bool _, _, _ | .string _, _, _ =>
    record_records (fun _ ↦ rfl) (by simp [Expr.children]) fun _ ↦ rfl
  | .fromEnd count, known, hreceiver => by
    unfold term
    exact (term_records receiver count known hreceiver).bind fun count ↦
      (record_records (fun _ ↦ rfl) (by simp [Expr.children]) fun _ ↦ rfl).mono (fun _ hd ↦ hd) fun _ _ hd ↦
        hd.mono (List.cons_subset_cons _ (List.subset_cons_self _ _))
  | .range start stop, known, hreceiver => by
    unfold term rangeTerm
    have hstart : Ensures (Orderly n known) (match start with
        | some bound => some <$> term receiver bound
        | none => pure none) fun bound ↦ Orderly n (bound.toList ++ known) := by
      cases start with
      | none => exact known_nil
      | some bound =>
        have hbound : Records n known (term receiver bound) := term_records receiver bound known hreceiver
        exact Ensures.map (f := some) hbound
    refine hstart.bind fun first ↦ ?_
    have hreceiver' : ∀ e, receiver = some e → e ∈ first.toList ++ known := fun e he ↦
      List.mem_append_right _ (hreceiver e he)
    have hstop : Ensures (Orderly n (first.toList ++ known)) (match stop with
        | some bound => some <$> term receiver bound
        | none => pure none) fun bound ↦ Orderly n (bound.toList ++ (first.toList ++ known)) := by
      cases stop with
      | none => exact known_nil
      | some bound =>
        have hbound : Records n (first.toList ++ known) (term receiver bound) :=
          term_records receiver bound _ hreceiver'
        exact Ensures.map (f := some) hbound
    refine hstop.bind fun last ↦ (record_records (fun _ ↦ rfl) (fun _ ↦ ?_) fun _ ↦ rfl).mono
      (fun _ hd ↦ hd) fun _ _ hd ↦ hd.mono (List.cons_subset_cons _ ?_)
    · intro e he
      simp only [Expr.children, List.mem_append] at he ⊢
      exact he.elim (fun h ↦ .inr (.inl h)) .inl
    · rw [← List.append_assoc]
      exact List.subset_append_right _ _
  | .default type, known, _ => by
    unfold term
    exact (resolve_keepsOrder type).bind fun _ ↦
      record_records (fun _ ↦ rfl) (by simp [Expr.children]) fun _ ↦ rfl
  | .call _ _ type, known, _ => by
    unfold term
    exact (resolve_keepsOrder type).bind fun _ ↦
      record_records (fun _ ↦ rfl) (by simp [Expr.children]) fun _ ↦ rfl
  | .index of position, known, hreceiver => by
    unfold term
    refine (term_records receiver of known hreceiver).bind fun of ↦
      (term_records receiver position (of :: known) fun e he ↦
        List.mem_cons_of_mem _ (hreceiver e he)).bind fun position ↦
          (record_records (fun _ ↦ rfl) (by simp [Expr.children]) fun _ ↦ rfl).mono (fun _ hd ↦ hd)
            fun _ _ hd ↦ hd.mono ?_
    intro e he
    simp only [List.mem_cons] at he ⊢
    exact he.imp_right fun h ↦ .inr (.inr h)
  | .element of args, known, hreceiver => by
    unfold term
    refine (term_records receiver of known hreceiver).bind fun of ↦
      (arguments_record receiver args (of :: known) fun e he ↦
        List.mem_cons_of_mem _ (hreceiver e he)).bind fun args ↦
          (record_records (fun _ ↦ rfl) (fun _ ↦ ?_) fun _ ↦ rfl).mono (fun _ hd ↦ hd)
            fun _ _ hd ↦ hd.mono ?_
    · intro e he
      simp only [Expr.children, List.mem_cons, List.mem_append] at he ⊢
      exact he.elim (fun h ↦ .inr (.inl h)) .inl
    · intro e he
      simp only [List.mem_cons, List.mem_append] at he ⊢
      exact he.imp_right fun h ↦ .inr (.inr h)
  | .span of _, known, hreceiver => by
    unfold term
    exact (term_records receiver of known hreceiver).bind fun of ↦
      (record_records (fun _ ↦ rfl) (by simp [Expr.children]) fun _ ↦ rfl).mono (fun _ hd ↦ hd) fun _ _ hd ↦
        hd.mono (List.cons_subset_cons _ (List.subset_cons_self _ _))
  | .conditional of access, known, hreceiver => by
    unfold term
    refine (term_records receiver of known hreceiver).bind fun of ↦
      (record_records (fun _ ↦ rfl) (by simp [Expr.children]) fun _ ↦ rfl).bind fun placeholder ↦
        (term_records (some placeholder) access (placeholder :: of :: known) fun e he ↦ ?_).bind
          fun access ↦ (record_records (fun _ ↦ rfl) (fun _ ↦ ?_) fun _ ↦ rfl).mono (fun _ hd ↦ hd)
            fun _ _ hd ↦ hd.mono ?_
    · cases he
      exact List.mem_cons_self
    · intro e he
      simp only [Expr.children, List.mem_cons, List.not_mem_nil, or_false] at he ⊢
      exact he.elim (fun h ↦ .inr (.inr (.inl h))) .inl
    · intro e he
      simp only [List.mem_cons] at he ⊢
      exact he.imp_right fun h ↦ .inr (.inr (.inr h))
  | .receiver, known, hreceiver => by
    unfold term
    split
    · rename_i placeholder
      refine .pure fun d hd ↦ ⟨hd.name_eq, hd.body, hd.names, fun e he ↦ ?_⟩
      rcases List.mem_cons.1 he with rfl | he
      · exact hd.known _ (hreceiver _ rfl)
      · exact hd.known e he
    · exact fun _ _ _ _ hrun ↦ nomatch hrun
termination_by structural t => t

theorem arguments_record (receiver : Option Expr) : (args : List (Argument Term)) →
    (known : List Expr) → (∀ e, receiver = some e → e ∈ known) →
      Ensures (Orderly n known) (arguments receiver args) fun args ↦
        Orderly n (args.map (·.value) ++ known)
  | [], _, _ => .pure fun _ hd ↦ hd
  | arg :: args, known, hreceiver => by
    unfold arguments
    refine (term_records receiver arg.value known hreceiver).bind fun value ↦
      (arguments_record receiver args (value :: known) fun e he ↦
        List.mem_cons_of_mem _ (hreceiver e he)).bind fun rest ↦ .pure fun d hd ↦ hd.mono ?_
    intro e he
    simp only [List.map_cons, List.cons_append, List.mem_cons, List.mem_append] at he ⊢
    exact he.elim (fun h ↦ .inr (.inl h)) (·.imp_right .inr)
termination_by structural args => args

end

theorem append_keepsOrder {s : Statement} (hs : s.exprs ⊆ known)
    (hlocal : ∀ v init, s ≠ .refLocal v init) :
    Ensures (Orderly n known) (append s) fun _ ↦ Orderly n [] := by
  intro d a d' hd hrun
  cases hrun
  exact ⟨hd.name_eq, hd.body.append (fun e he ↦ hd.known e (hs he)) hlocal, hd.names, nofun⟩

theorem bring_keepsOrder {name : String} {v : VariableId} :
    Ensures (fun d ↦ d.Orderly n known ∧ v < d.body.vars.size) (bring name v) fun _ ↦
      Orderly n known := by
  intro d a d' hd hrun
  unfold bring at hrun
  split at hrun
  · cases hrun
  · cases hrun
    refine ⟨hd.1.name_eq, hd.1.body, fun entry hentry ↦ ?_, hd.1.known⟩
    rcases List.mem_append.1 hentry with hentry | hentry
    · exact hd.1.names entry hentry
    · rw [List.mem_singleton.1 hentry]
      exact hd.2

/-- A declared variable is one of the body. -/
theorem Orderly.declare {d : MethodDraft} (h : d.Orderly n known) {v : Variable}
    (hreceiver : v.kind = .receiver → d.body.vars.size = 0) :
    { d with body := (d.body.declare v).2 }.Orderly n known := by
  refine ⟨h.name_eq, h.body.declare hreceiver, fun entry hentry ↦ ?_, h.known⟩
  have hlt : entry.2 < d.body.vars.size := h.names entry hentry
  simp only [Body.declare, Array.size_push]
  exact Nat.lt_succ_of_lt hlt

theorem declare_keepsOrder {v : Variable} (hv : v.kind ≠ .receiver) :
    Ensures (Orderly n known) (declare v) fun _ ↦ Orderly n known := by
  have hdeclare : Ensures (Orderly n known) (onBody (·.declare v)) fun id d ↦
      d.Orderly n known ∧ id < d.body.vars.size := by
    intro d id d' hd hrun
    cases hrun
    exact ⟨hd.declare fun h ↦ absurd h hv, by simp⟩
  exact hdeclare.bind fun id ↦ bring_keepsOrder.bind fun _ ↦ .pure fun _ hd ↦ hd

theorem action_keepsOrder : (a : Action) →
    Ensures (Orderly n []) (action a) fun _ ↦ Orderly n []
  | .expression value => by
    unfold action
    exact (term_records none value [] nofun).bind fun value ↦
      append_keepsOrder (by simp [Statement.exprs]) nofun
  | .assign target value => by
    unfold action
    exact (term_records none target [] nofun).bind fun target ↦
      (term_records none value [target] nofun).bind fun value ↦
        append_keepsOrder (by simp [Statement.exprs]) nofun
  | .compound target op value => by
    unfold action
    exact (term_records none target [] nofun).bind fun target ↦
      (term_records none value [target] nofun).bind fun value ↦
        append_keepsOrder (by simp [Statement.exprs]) nofun
  | .refLocal name readonly type init => by
    unfold action
    refine (resolve_keepsOrder type).bind fun type ↦ (term_records none init [] nofun).bind fun init ↦
      Ensures.bind (?_ : Ensures (Orderly n [init]) _ fun bound d ↦
        d.Orderly n [] ∧ bound < d.body.vars.size) fun bound ↦ bring_keepsOrder
    intro d bound d' hd hrun
    cases hrun
    have hbound : d.body.vars.size < (d.body.vars.push ⟨name, .refLocal readonly, type, false, true⟩).size := by
      simp
    refine ⟨⟨hd.name_eq, hd.body.bind (hd.known init List.mem_cons_self) nofun, ?_, nofun⟩, hbound⟩
    exact fun entry hentry ↦ Nat.lt_trans (hd.names entry hentry) hbound
  | .call callee args => by
    unfold action
    exact (arguments_record none args [] nofun).bind fun args ↦
      append_keepsOrder (by simp [Statement.exprs]) nofun
  | .ret none => append_keepsOrder (by simp [Statement.exprs]) nofun
  | .ret (some value) => by
    unfold action
    exact (term_records none value [] nofun).bind fun value ↦
      append_keepsOrder (by simp [Statement.exprs]) nofun

/-- The receiver is the first variable. -/
theorem owner_keepsOrder (o : Option OwnerDecl) :
    Ensures (fun d ↦ d.Orderly n [] ∧ d.body.vars.size = 0) (owner o) fun _ ↦ Orderly n [] := by
  cases o with
  | none => exact .pure fun _ hd ↦ hd.1
  | some o =>
    refine (resolve_keeps (fun d types hd ↦ ⟨hd.1.withTypes types, hd.2⟩) o.type).bind fun type ↦
      Ensures.bind (?_ : Ensures _ _ fun receiver d ↦
        d.Orderly n [] ∧ receiver < d.body.vars.size) fun receiver ↦ bring_keepsOrder
    intro d receiver d' hd hrun
    cases hrun
    have hbody : { d.body with owner := some ⟨type, o.readonly, o.unscopedRef⟩ }.Orderly :=
      ⟨hd.1.body.ids, hd.1.body.children, hd.1.body.roots, hd.1.body.exprs,
        hd.1.body.refLocals, hd.1.body.receiver⟩
    have howned : { d with
        body := { d.body with owner := some ⟨type, o.readonly, o.unscopedRef⟩ } }.Orderly n [] :=
      ⟨hd.1.name_eq, hbody, hd.1.names, nofun⟩
    exact ⟨howned.declare fun _ ↦ hd.2, by simp⟩

theorem method_keepsOrder (m : MethodDecl) :
    Ensures (fun d ↦ d.Orderly n [] ∧ d.body.vars.size = 0) (method m) fun _ ↦ Orderly n [] := by
  refine method_keeps m (owner_keepsOrder m.owner) resolve_keepsOrder (fun type d _ d' hd hrun ↦ ?_)
    (fun p ↦ ?_) (fun l ↦ ?_) action_keepsOrder
  · cases hrun
    exact ⟨hd.name_eq, ⟨hd.body.ids, hd.body.children, hd.body.roots, hd.body.exprs,
      hd.body.refLocals, hd.body.receiver⟩, hd.names, nofun⟩
  · exact (resolve_keepsOrder p.type).bind fun _ ↦ (declare_keepsOrder (by nofun)).bind fun _ ↦
      .pure fun _ hd ↦ hd
  · exact (resolve_keepsOrder l.type).bind fun _ ↦ (declare_keepsOrder (by nofun)).bind fun _ ↦
      .pure fun _ hd ↦ hd

end MethodDraft

namespace Scenario

theorem addMethod_orderly {p p' : Program} {m : MethodDecl}
    (hp : (∀ m ∈ p.methods, m.toBody.Orderly) ∧ (p.methods.map (·.name)).Nodup)
    (h : addMethod p m = .ok p') :
    (∀ m ∈ p'.methods, m.toBody.Orderly) ∧ (p'.methods.map (·.name)).Nodup := by
  obtain ⟨hname, draft, hdraft, rfl⟩ := addMethod_eq_ok h
  have hempty : ({ types := p.types, body := { name := m.name } } : MethodDraft).Orderly m.name [] :=
    ⟨rfl, ⟨by simp, by simp [Body.Records], by simp [Body.Records], nofun, nofun, by simp⟩, nofun,
      nofun⟩
  have hdraft : draft.Orderly m.name [] :=
    MethodDraft.method_keepsOrder m ⟨hempty, rfl⟩ hdraft
  refine ⟨fun method hmethod ↦ ?_, ?_⟩
  · rcases List.mem_append.1 hmethod with hmethod | hmethod
    · exact hp.1 method hmethod
    · rw [List.mem_singleton.1 hmethod]
      exact hdraft.body
  · rw [List.map_append, List.nodup_append]
    refine ⟨hp.2, by simp, fun name hold name' hnew ↦ ?_⟩
    obtain ⟨method, hmethod, rfl⟩ := List.mem_map.1 hold
    rw [List.map_singleton, List.mem_singleton] at hnew
    rw [hnew]
    change method.name ≠ draft.body.name
    rw [hdraft.name_eq]
    have hne := List.any_eq_false.1 hname method hmethod
    simpa using hne

/-- The methods of a program are orderly, and each has a name of its own. -/
theorem build_orderly {s : Scenario} {p : Program} (h : s.build = .ok p) :
    (∀ m ∈ p.methods, m.toBody.Orderly) ∧ (p.methods.map (·.name)).Nodup := by
  obtain ⟨types, -, h⟩ := Except.bind_eq_ok.1 h
  refine Except.foldlM_inv (fun _ _ _ hp hstep ↦ addMethod_orderly hp hstep) ?_ h
  exact ⟨by simp, by simp⟩

end Scenario

/-! ## Ref locals -/

/-- What is bound by reference has been declared so. -/
def Body.BindsRefLocals (b : Body) : Prop :=
  ∀ v init, .refLocal v init ∈ b.statements →
    v < b.vars.size ∧ ∃ readonly, (b.var v).kind = .refLocal readonly

namespace Body.BindsRefLocals

variable {b b' : Body}

theorem of_eq (hb : b.BindsRefLocals) (hvars : b'.vars = b.vars)
    (hstatements : b'.statements = b.statements) : b'.BindsRefLocals := by
  intro v init hs
  rw [hstatements] at hs
  simpa only [Body.var, hvars] using hb v init hs

theorem declare (hb : b.BindsRefLocals) (v : Variable) : (b.declare v).2.BindsRefLocals := by
  intro w init hs
  obtain ⟨hlt, hkind⟩ := hb w init hs
  rw [var_declare hlt]
  exact ⟨by simpa [Body.declare] using Nat.lt_succ_of_lt hlt, hkind⟩

theorem append (hb : b.BindsRefLocals) {s : Statement} (hlocal : ∀ v init, s ≠ .refLocal v init) :
    (b.append s).BindsRefLocals := by
  intro v init hs
  rcases List.mem_append.1 hs with hs | hs
  · exact hb v init hs
  · exact absurd (List.mem_singleton.1 hs).symm (hlocal v init)

theorem bind (hb : b.BindsRefLocals) {v : Variable} {readonly : Bool}
    (hkind : v.kind = .refLocal readonly) (init : Expr) :
    ((b.declare v).2.append (.refLocal b.vars.size init)).BindsRefLocals := by
  intro w value hs
  rcases List.mem_append.1 hs with hs | hs
  · exact hb.declare v w value hs
  · cases List.mem_singleton.1 hs
    refine ⟨by simp [Body.append, Body.declare], readonly, ?_⟩
    have hself : (b.declare v).2.var b.vars.size = v := var_declare_self
    exact (congrArg Variable.kind hself).trans hkind

end Body.BindsRefLocals

namespace MethodDraft

/-- Steps that bind only what is declared as a ref local. -/
abbrev KeepsBound {α : Type} (act : Build α) : Prop :=
  Ensures (·.body.BindsRefLocals) act fun _ d ↦ d.body.BindsRefLocals

theorem resolve_keepsBound (name : String) : KeepsBound (resolve name) :=
  resolve_keeps (fun _ _ hd ↦ hd) name

theorem term_keepsBound (t : Term) : KeepsBound (term none t) :=
  term_keeps resolve_keepsBound (fun _ _ hd ↦ hd.of_eq rfl rfl) none t

theorem append_keepsBound {s : Statement} (hlocal : ∀ v init, s ≠ .refLocal v init) :
    KeepsBound (append s) := by
  intro d a d' hd hrun
  cases hrun
  exact hd.append hlocal

theorem bring_keepsBound (name : String) (v : VariableId) : KeepsBound (bring name v) := by
  intro d a d' hd hrun
  unfold bring at hrun
  split at hrun
  · cases hrun
  · cases hrun
    exact hd

theorem declare_keepsBound (v : Variable) : KeepsBound (declare v) := by
  have hdeclare : KeepsBound (onBody (·.declare v)) := by
    intro d id d' hd hrun
    cases hrun
    exact hd.declare v
  exact hdeclare.bind fun _ ↦ (bring_keepsBound _ _).bind fun _ ↦ .pure fun _ hd ↦ hd

theorem action_keepsBound : (a : Action) → KeepsBound (action a)
  | .expression value => (term_keepsBound value).bind fun _ ↦ append_keepsBound nofun
  | .assign target value => (term_keepsBound target).bind fun _ ↦
      (term_keepsBound value).bind fun _ ↦ append_keepsBound nofun
  | .compound target _ value => (term_keepsBound target).bind fun _ ↦
      (term_keepsBound value).bind fun _ ↦ append_keepsBound nofun
  | .refLocal name readonly type init => by
    refine (resolve_keepsBound type).bind fun type ↦ (term_keepsBound init).bind fun init ↦
      Ensures.bind (?_ : KeepsBound _) fun bound ↦ bring_keepsBound _ _
    intro d bound d' hd hrun
    cases hrun
    exact hd.bind rfl init
  | .call _ args => (arguments_keep resolve_keepsBound (fun _ _ hd ↦ hd.of_eq rfl rfl) none args).bind
      fun _ ↦ append_keepsBound nofun
  | .ret none => append_keepsBound nofun
  | .ret (some value) => (term_keepsBound value).bind fun _ ↦ append_keepsBound nofun

theorem method_keepsBound (m : MethodDecl) : KeepsBound (method m) := by
  refine method_keeps m ?_ resolve_keepsBound (fun type d _ d' hd hrun ↦ ?_) (fun p ↦ ?_)
    (fun l ↦ ?_) action_keepsBound
  · cases m.owner with
    | none => exact .pure fun _ hd ↦ hd
    | some o =>
      refine (resolve_keepsBound o.type).bind fun type ↦
        Ensures.bind (?_ : KeepsBound _) fun receiver ↦ bring_keepsBound _ _
      intro d receiver d' hd hrun
      cases hrun
      have howned : { d.body with owner := some ⟨type, o.readonly, o.unscopedRef⟩ }.BindsRefLocals :=
        hd.of_eq rfl rfl
      exact howned.declare _
  · cases hrun
    exact hd.of_eq rfl rfl
  · exact (resolve_keepsBound p.type).bind fun _ ↦ (declare_keepsBound _).bind fun _ ↦
      .pure fun _ hd ↦ hd
  · exact (resolve_keepsBound l.type).bind fun _ ↦ (declare_keepsBound _).bind fun _ ↦
      .pure fun _ hd ↦ hd

end MethodDraft

theorem Scenario.build_bindsRefLocals {s : Scenario} {p : Program} (h : s.build = .ok p) :
    ∀ m ∈ p.methods, m.toBody.BindsRefLocals :=
  build_methods (fun d _ _ hdraft ↦
    MethodDraft.method_keepsBound d (fun _ _ hs ↦ absurd hs List.not_mem_nil) hdraft) h

end InlineArrays
