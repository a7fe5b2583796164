import InlineArrays.Proofs.Machine.Calls
import InlineArrays.Proofs.Machine.Territories

/-!
# Confined runs

Code that is allowed what it does to storage, in every routine of a program, never follows a reference
to storage that is gone, and leaves storage that it may not write as it was.  Each instruction keeps the
invariant of the running activation, and so does a call, for which the territory of the caller is all
that the callee may use of memory.
-/

namespace InlineArrays

/-- A computation keeps an invariant, whether it succeeds or fails, and never follows a reference to
storage that is gone. -/
def Run.Abides {α : Type} (inv : Memory → Prop) (act : Run α) (post : α → Prop) : Prop :=
  Run.Triple inv act (fun a m ↦ post a ∧ inv m) fun e m ↦ e ≠ .danglingReference ∧ inv m

namespace Run.Abides

variable {α β : Type} {inv : Memory → Prop} {act : Run α} {post mid : α → Prop}

theorem pure {a : α} (h : post a) : Abides inv (pure a) post := fun _ hm ↦ ⟨h, hm⟩

theorem throw {e : RuntimeError} (h : e ≠ .danglingReference) : Abides inv (throw e) post :=
  fun _ hm ↦ ⟨h, hm⟩

theorem bind {f : α → Run β} {post : β → Prop} (hact : Abides inv act mid)
    (hf : ∀ a, mid a → Abides inv (f a) post) : Abides inv (act >>= f) post :=
  Triple.bind hact fun a ↦ .of_pre (fun _ hm ↦ hm.1) fun ha ↦
    (hf a ha).mono (fun _ hm ↦ hm.2) (fun _ _ h ↦ h) fun _ _ h ↦ h

theorem mono (h : Abides inv act mid) (hpost : ∀ a, mid a → post a) : Abides inv act post :=
  Triple.mono h (fun _ h ↦ h) (fun a _ h ↦ ⟨hpost a h.1, h.2⟩) fun _ _ h ↦ h

/-- What follows a look at memory may depend on the memory that it finds. -/
theorem get_bind {f : Memory → Run α} (h : ∀ m, inv m → Abides inv (f m) post) :
    Abides inv ((get : Run Memory) >>= f) post := fun m hm ↦ h m hm hm

theorem modify {change : Memory → Memory} (h : ∀ m, inv m → inv (change m)) :
    Abides inv (modify change : Run Unit) fun _ ↦ True :=
  Triple.modify fun m hm ↦ ⟨trivial, h m hm⟩

theorem mapM {f : α → Run β} {post : α → β → Prop} {l : List α}
    (hf : ∀ a ∈ l, Abides inv (f a) (post a)) :
    Abides inv (l.mapM f) (List.Forall₂ post l) := by
  induction l with
  | nil =>
    rw [List.mapM_nil]
    exact pure .nil
  | cons a l ih =>
    rw [List.mapM_cons]
    exact (hf a List.mem_cons_self).bind fun b hb ↦
      (ih fun a ha ↦ hf a (List.mem_cons_of_mem _ ha)).bind fun bs hbs ↦ pure (.cons hb hbs)

end Run.Abides

/-- What the operand refers to is where its regions say. -/
def Layout.Reads (L : Layout) (T : Territory) (o : Operand) (v : Value) : Prop :=
  ∀ a, L.Ranges o a → v.Confined (T.At a)

/-- Every operand is defined by one instruction. -/
def Layout.Single (L : Layout) : Prop :=
  ∀ i ∈ L.code, ∀ j ∈ L.code, ∀ o, i.result? = some o → j.result? = some o → i = j

/-- An operand refers to what the instruction that defines it yields. -/
theorem Layout.Single.reads {L : Layout} (h : L.Single) {R : Territory} {k : Nat} {i : Instr}
    (hi : i ∈ L.code) {o : Operand} (ho : i.result? = some o) {v : Value}
    (hv : ∀ a, L.Results i a → v.Confined ((L.territory R k).At a)) :
    L.Reads (L.territory R k) o v := fun a ha ↦
  ha.of_result (P := fun a ↦ v.Confined ((L.territory R k).At a)) ho
    (fun j hj hjo ↦ h j hj i hi o hjo ho) hv (fun a b hva hab ↦ hva.mono fun r ↦ Territory.mono _ hab)
    fun w a κ κ' hw hκ howned hle ↦ hw.mono fun r hr ↦ by
      rw [eq_of_slot hr]
      exact .inl (.held hκ howned hle)

namespace Inside

open Run

variable {L : Layout} {R : Territory} {start m : Memory}

/-! ## Operands and operations -/

theorem frame?_eq (h : Inside L R start m) : m.frame? start.nextFrame = m.frames.head? := by
  obtain ⟨f, rest, hframes, hid, -, -⟩ := h.runs
  simp [Memory.frame?, hframes, hid]

theorem operand (o : Operand) :
    Abides (Inside L R start) (Run.operand o) (L.Reads (L.above R start) o) := by
  refine .get_bind fun m hm ↦ ?_
  cases o with
  | int n => exact .pure fun _ _ ↦ Value.confined_int n
  | bool b => exact .pure fun _ _ ↦ Value.confined_bool b
  | computed id =>
    dsimp only
    split
    · rename_i value hvalue
      obtain ⟨f, rest, hframes, -, -, hvalues⟩ := hm.runs
      rw [hframes, List.head?_cons, Option.bind_some] at hvalue
      exact .pure fun a ha ↦ hvalues id value a hvalue ha
    · exact .throw (by simp)
  | temp t =>
    dsimp only
    split
    · rename_i value hvalue
      refine .pure fun a ha ↦ ?_
      obtain ⟨stored, hstored, hconfined⟩ := hm.temps ha
      rw [Memory.root?, hm.frame?_eq, hvalue] at hstored
      exact Option.some.inj hstored ▸ hconfined
    · exact .throw (by simp)

theorem int (o : Operand) : Abides (Inside L R start) (Run.int o) fun _ ↦ True :=
  (operand o).bind fun v _ ↦ by cases v <;> first | exact .pure trivial | exact .throw nofun

theorem offset (o : Operand) : Abides (Inside L R start) (Run.offset o) fun _ ↦ True :=
  (operand o).bind fun v _ ↦ by cases v <;> first | exact .pure trivial | exact .throw nofun

theorem range (o : Operand) : Abides (Inside L R start) (Run.range o) fun _ ↦ True :=
  (operand o).bind fun v _ ↦ by cases v <;> first | exact .pure trivial | exact .throw nofun

theorem address (o : Operand) : Abides (Inside L R start) (Run.address o) fun target ↦
    ∀ a, L.Ranges o a → (L.above R start).At a target.root :=
  (operand o).bind fun v hv ↦ by
    cases v with
    | address target => exact .pure fun a ha ↦ Value.confined_address.1 (hv a ha)
    | _ => exact .throw nofun

theorem span (o : Operand) :
    Abides (Inside L R start) (Run.span o) fun view ↦ L.Reads (L.above R start) o (.span view) :=
  (operand o).bind fun v hv ↦ by
    cases v with
    | span view => exact .pure hv
    | _ => exact .throw nofun

theorem read {target : Address} {a : Region} (ha : (L.above R start).At a target.root) :
    Abides (Inside L R start) (Run.read target) fun v ↦
      ∀ a κ, (L.above R start).At a target.root → L.content? a = some κ →
        v.Confined ((L.above R start).At κ) := by
  refine .get_bind fun m hm ↦ ?_
  obtain ⟨κ, hκ⟩ := Layout.exists_content? ha
  cases hread : m.read target with
  | ok v => exact .pure fun b κ hb hκ ↦ (hm.holds hκ).read_confined hb hread
  | error e => exact .throw ((hm.holds hκ).read_ne_dangling ha hread)

theorem store (hR : R.Settled start) {target : Address} {v : Value}
    (hstore : ((L.above R start).At (.data true true) target.root ∧
        v.Confined ((L.above R start).At .shared)) ∨
      ∃ w κ, (L.above R start).At (.slot w) target.root ∧ L.region? w = some κ ∧
        v.Confined ((L.above R start).At κ)) :
    Abides (Inside L R start) (Run.write target v) fun _ ↦ True := by
  refine .get_bind fun m hm ↦ ?_
  have hat : ∃ a, (L.above R start).At a target.root :=
    hstore.elim (fun h ↦ ⟨_, h.1⟩) fun ⟨w, _, h, _⟩ ↦ ⟨_, h⟩
  obtain ⟨a, ha⟩ := hat
  obtain ⟨κ, hκ⟩ := Layout.exists_content? ha
  cases hwrite : m.write target v with
  | ok m' => exact fun _ _ ↦ ⟨trivial, hm.write hR hwrite hstore⟩
  | error e => exact .throw ((hm.holds hκ).write_ne_dangling ha hwrite)

theorem operation {types : TypeTable} {passes : String → List Operand → Prop} {note : Note}
    {d : ValueId} {op : Operation} (hallows : L.Allows passes (.define note d op)) :
    Abides (Inside L R start) (op.run types start.nextFrame) fun v ↦
      ∀ a, L.Results (.define note d op) a → v.Confined ((L.above R start).At a) := by
  cases op with
  | addressOf target name =>
    refine .pure ?_
    rintro _ ⟨rfl, htarget⟩
    obtain ⟨κ, hκ⟩ := Option.isSome_iff_exists.1 htarget
    exact Value.confined_address.2 (.inl (.slot hκ))
  | tempAddress temp =>
    refine .pure ?_
    rintro a ⟨κ, howned, hne, htemp⟩
    exact Value.confined_address.2 (.inl (.temp howned hne htemp))
  | fieldAddress base name =>
    refine (operand base).bind fun v hv ↦ ?_
    cases v with
    | address target =>
      have htarget (a : Region) (ha : L.Ranges base a) : (L.above R start).At a target.root :=
        Value.confined_address.1 (hv a ha)
      exact .pure fun a ha ↦ Value.confined_address.2 (htarget a (ha _ rfl))
    | object cell =>
      exact .pure fun a ha ↦ Value.confined_address.2 (Value.confined_object.1 (hv a (ha _ rfl)))
    | _ => exact .throw nofun
  | load source =>
    obtain ⟨a, ha⟩ := hallows
    refine (address source).bind fun target htarget ↦
      (read (htarget a ha)).mono fun v hv κ hload ↦ ?_
    obtain ⟨b, hb, hκ⟩ := hload
    exact hv b κ (htarget b hb) hκ
  | default type name => exact .pure fun _ _ ↦ Value.defaultValue_confined types type
  | project kind base array element size =>
    refine (address base).bind fun target htarget ↦ .pure fun a ha ↦ Value.confined_span.2 ?_
    rintro _ ⟨⟩
    exact htarget a (ha _ rfl)
  | length view => exact (span view).bind fun _ _ ↦ .pure fun _ _ ↦ Value.confined_int _
  | getOffset offset total =>
    exact (Inside.offset offset).bind fun _ _ ↦ (int total).bind fun _ _ ↦
      .pure fun _ _ ↦ Value.confined_int _
  | makeIndex value fromEnd =>
    refine (int value).bind fun n _ ↦ ?_
    split
    · exact .throw nofun
    · exact .pure fun _ _ ↦ Value.confined_index _
  | makeRange start stop =>
    exact (offset start).bind fun _ _ ↦ (offset stop).bind fun _ _ ↦
      .pure fun _ _ ↦ Value.confined_range _ _
  | rangeStart range =>
    exact (Inside.range range).bind fun _ _ ↦ .pure fun _ _ ↦ Value.confined_index _
  | rangeEnd range =>
    exact (Inside.range range).bind fun _ _ ↦ .pure fun _ _ ↦ Value.confined_index _
  | binary op left right =>
    exact (int left).bind fun _ _ ↦ (int right).bind fun _ _ ↦ .pure fun _ _ ↦ Value.confined_int _
  | index view position =>
    refine (span view).bind fun view hview ↦ (int position).bind fun n _ ↦ ?_
    cases hindex : view.index n with
    | ok element => exact .pure fun a ha ↦ SpanView.confined_of_index (hview a (ha _ rfl)) hindex
    | error e => exact .throw (SpanView.index_benign hindex).ne_dangling
  | slice view start count =>
    refine (span view).bind fun view hview ↦ (int start).bind fun n _ ↦
      (int count).bind fun length _ ↦ ?_
    cases hslice : view.slice n length with
    | ok part => exact .pure fun a ha ↦ SpanView.confined_of_slice (hview a (ha _ rfl)) hslice
    | error e => exact .throw (SpanView.slice_benign hslice).ne_dangling
  | convert value => exact (int value).bind fun _ _ ↦ .pure fun _ _ ↦ Value.confined_int _

theorem define (hsingle : L.Single) {i : Instr} (hi : i ∈ L.code) {d : ValueId}
    (hd : i.result? = some (.computed d)) {v : Value}
    (hv : ∀ a, L.Results i a → v.Confined ((L.above R start).At a)) :
    Abides (Inside L R start) (Run.define d v) fun _ ↦ True :=
  .modify fun _ hm ↦ hm.defined (hsingle.reads hi hd hv)

/-! ## Instructions -/

/-- What an activation relies on: that its instructions may do what they do, and that calls leave the
invariant as it is. -/
structure Runnable (L : Layout) (R : Territory) (start : Memory)
    (passes : String → List Operand → Prop) (invoke : String → List Value → Run Value) : Prop where
  settled : R.Settled start
  single : L.Single
  allows {i : Instr} : i ∈ L.code → L.Allows passes i
  calls {callee : String} {os : List Operand} {args : List Value} : passes callee os →
    (∀ o ∈ os, ∃ a, L.Ranges o a) → List.Forall₂ (L.Reads (L.above R start)) os args →
      Abides (Inside L R start) (invoke callee args) fun _ ↦ True
  common (callee : String) : Abides (Inside L R start) (invoke callee []) fun v ↦
    v.Confined ((L.above R start).At .shared)

section

variable {types : TypeTable} {invoke : String → List Value → Run Value}
  {passes : String → List Operand → Prop}

mutual

theorem instr (h : Runnable L R start passes invoke) :
    (i : Instr) → i.flatten ⊆ L.code →
      Abides (Inside L R start) (i.run types invoke start.nextFrame) fun returned ↦
        ∀ v ∈ returned, v.Confined ((L.above R start).At (.data false false))
  | .define note dest op, hi =>
    have hmem : .define note dest op ∈ L.code := hi List.mem_cons_self
    (operation (h.allows hmem)).bind fun _ hv ↦
      (define h.single hmem rfl hv).bind fun _ _ ↦ .pure nofun
  | .store note target value, hi => by
    have hstore : L.Allows passes (.store note target value) := h.allows (hi List.mem_cons_self)
    refine (address target).bind fun a ha ↦ (operand value).bind fun v hv ↦
      (store h.settled ?_).bind fun _ _ ↦ .pure nofun
    exact hstore.imp (fun h ↦ ⟨ha _ h.1, hv _ h.2⟩) fun ⟨w, κ, htarget, hκ, hvalue⟩ ↦
      ⟨w, κ, ha _ htarget, hκ, hv _ hvalue⟩
  | .storeTemp note temp value, hi => by
    have hmem : .storeTemp note temp value ∈ L.code := hi List.mem_cons_self
    obtain ⟨κ, hκ⟩ := h.allows hmem
    refine (operand value).bind fun v hv ↦ ?_
    have hset : Abides (Inside L R start) (modify (·.updateTop (·.setTemp temp v))) fun _ ↦ True :=
      .modify fun m hm ↦ by
        rw [hm.updateTop_eq h.settled]
        exact hm.setTemp h.settled (.temp hmem hκ) (h.single.reads hmem rfl hv)
    exact hset.bind fun _ _ ↦ .pure nofun
  | .bind note target name source, hi => by
    have hmem : .bind note target name source ∈ L.code := hi List.mem_cons_self
    obtain ⟨κ, hκ, hsource⟩ := h.allows hmem
    refine (address source).bind fun a ha ↦ ?_
    have hset : Abides (Inside L R start) (modify (·.updateTop (·.setSlot target (.address a))))
        fun _ ↦ True :=
      .modify fun m hm ↦ by
        rw [hm.updateTop_eq h.settled]
        exact hm.setSlot h.settled hκ (Value.confined_address.2 (ha κ hsource))
    exact hset.bind fun _ _ ↦ .pure nofun
  | .call note (some dest) callee args, hi => by
    have hmem : .call note (some dest) callee args ∈ L.code := hi List.mem_cons_self
    obtain rfl : args = [] := h.allows hmem
    refine (Abides.pure rfl : Abides _ (Pure.pure []) (· = [])).bind ?_
    rintro _ rfl
    refine (h.common callee).bind fun v hv ↦ (define h.single hmem rfl ?_).bind fun _ _ ↦ .pure nofun
    rintro _ ⟨-, rfl⟩
    exact hv
  | .call note none callee args, hi => by
    have hmem : .call note none callee args ∈ L.code := hi List.mem_cons_self
    obtain ⟨hpasses, hranges⟩ := h.allows hmem
    exact (Abides.mapM fun o _ ↦ operand o).bind fun vs hvs ↦
      (h.calls hpasses hranges hvs).bind fun _ _ ↦ .pure nofun
  | .guard note dest tested body result, hi => by
    have hmem : .guard note dest tested body result ∈ L.code := hi List.mem_cons_self
    refine (operand tested).bind fun v _ ↦ ?_
    split
    · exact (define h.single hmem rfl fun _ _ ↦ Value.confined_null).bind fun _ _ ↦ .pure nofun
    · refine (code h body
        fun _ hj ↦ hi (List.mem_cons_of_mem _ hj)).bind fun returned hreturned ↦ ?_
      cases returned with
      | some value => exact .pure hreturned
      | none =>
        exact (operand result).bind fun v hv ↦
          (define h.single hmem rfl hv).bind fun _ _ ↦ .pure nofun
  | .ret _ none, _ => .pure (by rintro v ⟨⟩; exact Value.confined_unit)
  | .ret note (some value), hi => by
    have hmem : .ret note (some value) ∈ L.code := hi List.mem_cons_self
    refine (operand value).bind fun v hv ↦ .pure ?_
    rintro _ ⟨⟩
    exact hv _ (h.allows hmem)

theorem code (h : Runnable L R start passes invoke) :
    (code : List Instr) → Instr.flattenAll code ⊆ L.code →
      Abides (Inside L R start) (Instr.runAll types invoke start.nextFrame code) fun returned ↦
        ∀ v ∈ returned, v.Confined ((L.above R start).At (.data false false))
  | [], _ => .pure nofun
  | i :: rest, hcode => by
    obtain ⟨hfirst, hrest⟩ := List.append_subset.1 hcode
    refine (instr h i hfirst).bind fun returned hreturned ↦ ?_
    cases returned with
    | some value => exact .pure hreturned
    | none => exact code h rest hrest

end

end

end Inside

/-! ## Calls -/

/-- A computation keeps a territory, and whoever has the territory may use what it returns. -/
def Territory.Contains (R : Territory) (m : Memory) (act : Run Value) : Prop :=
  match act m with
  | .ok v m' => v.Confined (R.At (.data true false)) ∧ R.Keeps m m'
  | .error e m' => e ≠ .danglingReference ∧ R.Keeps m m'

theorem Territory.Contains.of_common {R : Territory} {m : Memory} {act : Run Value}
    (h : R.common.Contains m act) (hR : R.Settled m) : R.Contains m act := by
  unfold Contains at h ⊢
  split <;> rename_i heq <;> rw [heq] at h
  · exact ⟨h.1.mono fun r hr ↦ R.mono (a := .shared) trivial hr, h.2.of_common hR⟩
  · exact ⟨h.1, h.2.of_common hR⟩

namespace Inside

variable {L : Layout} {R : Territory} {start : Memory} {act : Run Value}

theorem contained (hR : R.Settled start)
    (h : ∀ m, Inside L R start m → (L.above R start).Contains m act) :
    Run.Abides (Inside L R start) act fun v ↦ v.Confined ((L.above R start).At (.data true false)) := by
  intro m hm
  have hact := h m hm
  unfold Territory.Contains at hact
  split <;> rename_i heq <;> rw [heq] at hact
  · exact ⟨hact.1, hm.keeps hR hact.2⟩
  · exact ⟨hact.1, hm.keeps hR hact.2⟩

theorem contained_common (hR : R.Settled start)
    (h : ∀ m, Inside L R start m → (L.above R start).common.Contains m act) :
    Run.Abides (Inside L R start) act fun v ↦ v.Confined ((L.above R start).At .shared) := by
  intro m hm
  have hact := h m hm
  unfold Territory.Contains at hact
  split <;> rename_i heq <;> rw [heq] at hact
  · exact ⟨hact.1, hm.keeps hR (hact.2.of_common hm.settled)⟩
  · exact ⟨hact.1, hm.keeps hR (hact.2.of_common hm.settled)⟩

end Inside

namespace Executable

variable {x : Executable} {layout : Method × Routine → Layout} {host : Host} {R : Territory}
  {m : Memory} {callee : String} {args : List Value} {receiver : Option Value}

/-- What a caller passes refers to what the parameters of the callee may refer to. -/
def Passes (x : Executable) (layout : Method × Routine → Layout) (L : Layout) (callee : String)
    (os : List Operand) : Prop :=
  ∀ p, x.find? callee = some p → os.length = p.2.parameters.length → List.Forall₂
    (fun id o ↦ ∀ κ, (layout p).region? id = some κ → L.Ranges o κ.passed) p.2.parameters os

/-- Every routine may do what it does, and has slots for what its variables are to refer to. -/
structure Ranged (x : Executable) (layout : Method × Routine → Layout) : Prop where
  wellFormed {p : Method × Routine} : p ∈ x.routines → p.2.WellFormed
  code {p : Method × Routine} : p ∈ x.routines → (layout p).code = p.2.instrs
  allows {p : Method × Routine} : p ∈ x.routines → ∀ i ∈ p.2.instrs,
    (layout p).Allows (x.Passes layout (layout p)) i
  present {p : Method × Routine} : p ∈ x.routines → ∀ args receiver,
    args.length = p.2.parameters.length → ∀ v κ, (layout p).region? v = some κ →
      (lookup? v (x.slots p.1 p.2 args receiver)).isSome

/-- What a method is called with refers to what its parameters and its receiver may refer to; outside
the program, to a closed part of memory. -/
structure Takes (x : Executable) (layout : Method × Routine → Layout) (R : Territory) (m : Memory)
    (callee : String) (args : List Value) (receiver : Option Value) : Prop where
  outside : x.find? callee = none → ∃ P, m.Holds P P ∧ ∀ v ∈ args, v.Confined P
  inside {p : Method × Routine} : x.find? callee = some p → args.length = p.2.parameters.length →
    List.Forall₂ (fun id v ↦ ∀ κ, (layout p).region? id = some κ → v.Confined (R.At κ.passed))
      p.2.parameters args
  receives {p : Method × Routine} {id : VariableId} {κ : Region} : x.find? callee = some p →
    p.2.receiver = some id → (layout p).region? id = some κ →
      ∀ v ∈ receiver, v.Confined (R.At κ.passed)

/-- Given arguments in a closed part of memory, a host changes nothing but the output. -/
def Host.Harmless (host : Host) : Prop :=
  ∀ m P callee args, m.Holds P P → (∀ v ∈ args, v.Confined P) →
    match host callee args m with
    | .ok v m' => (∀ Q, v.Confined Q) ∧ ∃ output, m' = { m with output }
    | .error e m' => e ≠ .danglingReference ∧ ∃ output, m' = { m with output }

theorem harmless_leave : leave.Harmless := fun _ _ _ _ _ _ ↦
  ⟨fun _ ↦ Value.confined_unit, _, rfl⟩

theorem Host.Harmless.contains (h : host.Harmless) (hR : R.Settled m) {P : Root → Prop}
    (hP : m.Holds P P) (hargs : ∀ v ∈ args, v.Confined P) : R.Contains m (host callee args) := by
  have hhost := h m P callee args hP hargs
  unfold Territory.Contains
  split <;> rename_i heq <;> rw [heq] at hhost <;> obtain ⟨hvalue, output, rfl⟩ := hhost
  · exact ⟨hvalue _, .output hR output⟩
  · exact ⟨hvalue, .output hR output⟩

/-- Without arguments, nothing is handed on. -/
theorem Takes.nothing : x.Takes layout R m callee [] none where
  outside _ := ⟨fun _ ↦ False, fun _ h ↦ h.elim, nofun⟩
  inside _ hlength := by
    rw [List.length_eq_zero_iff.1 hlength.symm]
    exact .nil
  receives _ _ _ := nofun

/-- Arguments refer to what the operands that they come from do. -/
theorem confined_of_reads {L : Layout} {os : List Operand}
    (hreads : List.Forall₂ (L.Reads R) os args) (hranges : ∀ o ∈ os, ∃ a, L.Ranges o a) :
    ∀ v ∈ args, v.Confined fun r ↦ ∃ a, R.At a r := by
  induction hreads with
  | nil => exact nofun
  | cons hv _ ih =>
    obtain ⟨⟨a, ha⟩, hranges⟩ := List.forall_mem_cons.1 hranges
    exact List.forall_mem_cons.2 ⟨(hv a ha).mono fun _ hr ↦ ⟨a, hr⟩, ih hranges⟩

theorem passed_of_reads {L L' : Layout} {ids : List VariableId} {os : List Operand}
    (hpassed : List.Forall₂ (fun id o ↦ ∀ κ, L'.region? id = some κ → L.Ranges o κ.passed) ids os)
    (hreads : List.Forall₂ (L.Reads R) os args) :
    List.Forall₂ (fun id v ↦ ∀ κ, L'.region? id = some κ → v.Confined (R.At κ.passed)) ids args := by
  induction hpassed generalizing args with
  | nil =>
    cases hreads
    exact .nil
  | cons ho _ ih =>
    cases hreads with
    | cons hv hreads => exact .cons (fun κ hκ ↦ hv _ (ho κ hκ)) (ih hreads)

/-- What operands refer to is passed. -/
theorem Takes.of_passes {L : Layout} {start : Memory} (hm : Inside L R start m) {os : List Operand}
    (hpasses : x.Passes layout L callee os) (hranges : ∀ o ∈ os, ∃ a, L.Ranges o a)
    (hreads : List.Forall₂ (L.Reads (L.above R start)) os args) :
    x.Takes layout (L.above R start) m callee args none where
  outside _ := ⟨_, hm.holds_all, confined_of_reads hreads hranges⟩
  inside {p} hp hlength := passed_of_reads (hpasses p hp (hreads.length_eq.trans hlength)) hreads
  receives _ _ _ := nofun

theorem slots_confined {p : Method × Routine} (hp : x.find? callee = some p)
    (htakes : x.Takes layout R m callee args receiver)
    (hlength : args.length = p.2.parameters.length) :
    ∀ entry ∈ x.slots p.1 p.2 args receiver, ∀ κ, (layout p).region? entry.1 = some κ →
      entry.2.Confined (((layout p).above R m).At κ) := by
  apply slots_forall (P := fun id v ↦ ∀ κ, (layout p).region? id = some κ →
    v.Confined (((layout p).above R m).At κ))
  · exact fun v _ κ _ ↦ Value.defaultValue_confined x.types _
  · exact fun _ _ _ _ _ ↦ Value.confined_null
  · intro pair hpair κ hκ
    have hargs := (List.forall₂_iff_zip.1 (htakes.inside hp hlength)).2 hpair
    exact Layout.confined_of_passed ((layout p).shared_le hκ) (hargs κ hκ)
  · intro id hid κ hκ
    cases receiver with
    | none => exact Value.defaultValue_confined x.types _
    | some v =>
      exact Layout.confined_of_passed ((layout p).shared_le hκ) (htakes.receives hp hid hκ v rfl)

section

variable (h : x.Ranged layout)
include h

/-- An activation keeps the territory of its caller if the calls that it makes keep its own. -/
theorem Ranged.activate {p : Method × Routine} (hp : x.find? callee = some p)
    {invoke : String → List Value → Run Value}
    (hinvoke : ∀ R m callee args, R.Settled m → x.Takes layout R m callee args none →
      R.Contains m (invoke callee args))
    (hR : R.Settled m) (htakes : x.Takes layout R m callee args receiver)
    (hlength : args.length = p.2.parameters.length) :
    R.Contains m (activate p.2 (x.slots p.1 p.2 args receiver) fun frame ↦
      Instr.runAll x.types invoke frame p.2.code) := by
  have hmem := find?_mem hp
  have hrunnable : Inside.Runnable (layout p) R m (x.Passes layout (layout p)) invoke :=
    { settled := hR
      single := fun i hi j hj o ↦ by
        rw [h.code hmem] at hi hj
        exact (h.wellFormed hmem).eq_of_result? hi hj
      allows := fun {i} hi ↦ h.allows hmem i (h.code hmem ▸ hi)
      calls := fun hpasses hranges hreads ↦ (Inside.contained hR fun m' hm' ↦
        hinvoke _ m' _ _ hm'.settled (.of_passes hm' hpasses hranges hreads)).mono
          fun _ _ ↦ trivial
      common := fun callee ↦ Inside.contained_common hR fun m' hm' ↦
        hinvoke _ m' callee [] hm'.settled.common .nothing }
  have hstart : Inside (layout p) R m (pushed p.2 (x.slots p.1 p.2 args receiver) m) :=
    Inside.pushed hR (h.wellFormed hmem) (h.code hmem) (h.present hmem args receiver hlength)
      (slots_confined hp htakes hlength)
  have hcode : Run.Abides (Inside (layout p) R m) (Instr.runAll x.types invoke m.nextFrame p.2.code)
      fun returned ↦ ∀ v ∈ returned, v.Confined (((layout p).above R m).At (.data false false)) :=
    Inside.code hrunnable p.2.code (h.code hmem ▸ List.Subset.refl _)
  have hrun := hcode hstart
  unfold Territory.Contains Executable.activate
  unfold pushed at hrun
  dsimp only at hrun ⊢
  cases hbody : Instr.runAll x.types invoke m.nextFrame p.2.code _ with
  | error e m' =>
    rw [hbody] at hrun
    exact ⟨hrun.1, hrun.2.finish hR⟩
  | ok returned m' =>
    rw [hbody] at hrun
    refine ⟨?_, hrun.2.finish hR⟩
    cases returned with
    | none => exact Value.confined_unit
    | some v => exact (hrun.1 v rfl).mono fun r ↦ Layout.territory_returned.1

/-- A call keeps the territory of its caller, with any room for further ones. -/
theorem Ranged.invokeWithin (hhost : host.Harmless) (room : Nat) (hR : R.Settled m)
    (htakes : x.Takes layout R m callee args receiver) :
    R.Contains m (x.invokeWithin host room callee args receiver) := by
  induction room generalizing R m callee args receiver with
  | zero =>
    cases hfind : x.find? callee with
    | none =>
      rw [invokeWithin_host hfind]
      obtain ⟨P, hP, hargs⟩ := htakes.outside hfind
      exact hhost.contains hR hP hargs
    | some p =>
      by_cases hcount : args.length = p.2.parameters.length
      · rw [invokeWithin_zero hfind hcount]
        exact ⟨nofun, .refl hR⟩
      · rw [invokeWithin_argumentCount hfind hcount]
        exact ⟨nofun, .refl hR⟩
  | succ room ih =>
    cases hfind : x.find? callee with
    | none =>
      rw [invokeWithin_host hfind]
      obtain ⟨P, hP, hargs⟩ := htakes.outside hfind
      exact hhost.contains hR hP hargs
    | some p =>
      by_cases hcount : args.length = p.2.parameters.length
      · rw [invokeWithin_succ hfind hcount]
        exact h.activate hfind (fun _ _ _ _ hR htakes ↦ ih hR htakes) hR htakes hcount
      · rw [invokeWithin_argumentCount hfind hcount]
        exact ⟨nofun, .refl hR⟩

theorem Ranged.invoke (hhost : host.Harmless) (hR : R.Settled m)
    (htakes : x.Takes layout R m callee args receiver) :
    R.Contains m (x.invoke host callee args receiver) :=
  h.invokeWithin hhost (maxCallDepth - m.frames.length) hR htakes

end

end Executable

end InlineArrays
