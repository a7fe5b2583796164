import InlineArrays.Proofs.Code.MutableViews

/-!
# Regions

Code tells of each operand which storage it may refer to.  A region is a kind of storage as one
activation sees it: storage shared by everything that refers to it, data, which holds nothing but
references to shared storage, storage that may also hold spans over data, and the slot of a variable.
Data and spans are told apart by whether they may be storage of the activation itself and by whether
they may be written.  `Layout.Ranges` derives the regions of operands from the code that defines them,
and `Layout.Allows` tells what an instruction may do with operands of these regions.
-/

namespace InlineArrays

inductive Region where
  /-- Storage that whatever is stored may refer to. -/
  | shared
  | data (own writable : Bool)
  /-- What a mutable span in `writable` storage is over may be written. -/
  | spans (own writable : Bool)
  | slot (target : VariableId)
  deriving DecidableEq

namespace Region

/-- Storage of the one region counts as storage of the other. -/
def Within : Region → Region → Prop
  | .shared, .shared | .shared, .data .. | .shared, .spans .. => True
  | .data own writable, .data own' writable' => own ≤ own' ∧ writable' ≤ writable
  | .data own _, .spans own' _ => own ≤ own'
  | .spans own writable, .spans own' writable' => own ≤ own' ∧ writable' ≤ writable
  | .slot v, .slot v' => v = v'
  | _, _ => False

instance : LE Region := ⟨Within⟩

instance : (a b : Region) → Decidable (a ≤ b)
  | .shared, .shared | .shared, .data .. | .shared, .spans .. => isTrue trivial
  | .data own writable, .data own' writable' | .spans own writable, .spans own' writable' =>
    inferInstanceAs (Decidable (own ≤ own' ∧ writable' ≤ writable))
  | .data own _, .spans own' _ => inferInstanceAs (Decidable (own ≤ own'))
  | .slot v, .slot v' => inferInstanceAs (Decidable (v = v'))
  | .shared, .slot _ | .data .., .shared | .data .., .slot _ | .spans .., .shared
  | .spans .., .data .. | .spans .., .slot _ | .slot _, .shared | .slot _, .data ..
  | .slot _, .spans .. => isFalse id

variable {a b : Region}

theorem le_refl (a : Region) : a ≤ a := by
  cases a with
  | shared => trivial
  | data | spans => exact ⟨Bool.le_refl _, Bool.le_refl _⟩
  | slot => rfl

theorem le_trans {c : Region} (hab : a ≤ b) (hbc : b ≤ c) : a ≤ c := by
  cases a <;> cases b <;> cases c <;>
    first
    | trivial
    | exact hab.elim
    | exact hbc.elim
    | exact ⟨Bool.le_trans hab.1 hbc.1, Bool.le_trans hbc.2 hab.2⟩
    | exact Bool.le_trans hab.1 hbc
    | exact Bool.le_trans hab hbc.1
    | exact Eq.trans hab hbc

theorem data_le_data {own own' writable writable' : Bool} (h : own ≤ own')
    (hwritable : writable' ≤ writable) : data own writable ≤ data own' writable' :=
  ⟨h, hwritable⟩

theorem data_le_spans {own own' writable writable' : Bool} (h : own ≤ own') :
    data own writable ≤ spans own' writable' := h

theorem spans_le_spans {own own' writable writable' : Bool} (h : own ≤ own')
    (hwritable : writable' ≤ writable) : spans own writable ≤ spans own' writable' :=
  ⟨h, hwritable⟩

/-- What storage of a region refers to, unless it is the slot of a variable. -/
def content? : Region → Option Region
  | .shared | .data .. => some .shared
  | .spans own writable => some (.data own writable)
  | .slot _ => none

/-- What storage of the activation itself refers to if it is in the region. -/
def owned? : Region → Option Region
  | .data true _ => some .shared
  | .spans true writable => some (.data true writable)
  | _ => none

/-- The region as an activation sees it that is called with references to it: storage of the caller
is as good as storage from further away. -/
def passed : Region → Region
  | .data _ writable => .data true writable
  | .spans _ writable => .spans true writable
  | a => a

theorem content?_of_owned? (h : a.owned? = some b) : a.content? = some b := by
  unfold owned? at h
  split at h <;> first | exact h | cases h

/-- Larger regions may hold more. -/
theorem owned?_mono (hab : a ≤ b) {κ : Region} (h : a.owned? = some κ) :
    ∃ κ', b.owned? = some κ' ∧ κ ≤ κ' := by
  unfold owned? at h
  split at h
  · cases h
    cases b with
    | data own writable =>
      obtain rfl : own = true := hab.1 rfl
      exact ⟨_, rfl, trivial⟩
    | spans own writable =>
      obtain rfl : own = true := hab rfl
      exact ⟨_, rfl, trivial⟩
    | _ => cases hab
  · cases h
    cases b with
    | spans own writable =>
      obtain rfl : own = true := hab.1 rfl
      exact ⟨_, rfl, hab⟩
    | _ => cases hab
  · cases h

theorem ne_of_owned? (hab : a ≤ b) {κ : Region} (h : a.owned? = some κ) (hne : a ≠ .data true true) :
    b ≠ .data true true := by
  rintro rfl
  unfold owned? at h
  split at h
  · obtain ⟨-, hwritable⟩ := hab
    exact hne (congrArg _ (hwritable rfl))
  · cases hab
  · cases h

theorem passed_mono (hab : a ≤ b) : a.passed ≤ b.passed := by
  cases a <;> cases b <;>
    first
    | exact hab
    | exact ⟨Bool.le_refl _, hab.2⟩
    | exact Bool.le_refl _

theorem content?_passed {κ : Region} (h : a.content? = some κ) :
    a.passed.content? = some κ.passed := by
  cases a <;> cases h <;> rfl

theorem shared_le_of_content? {κ : Region} (h : a.content? = some κ) : .shared ≤ κ := by
  cases a <;> cases h <;> trivial

end Region

/-! ## Operations -/

namespace Operation

/-- The operand in whose storage the result of the operation lies. -/
def base? : Operation → Option Operand
  | .fieldAddress operand _ | .project _ operand .. | .index operand _ | .slice operand .. =>
    some operand
  | _ => none

/-- Whether the result refers to nothing. -/
def isPlain : Operation → Bool
  | .default .. | .length _ | .getOffset .. | .makeIndex .. | .makeRange .. | .rangeStart _
  | .rangeEnd _ | .binary .. | .convert _ => true
  | _ => false

end Operation

/-! ## Regions of operands -/

/-- The instructions of a routine, those in guards included, and what its variables refer to. -/
structure Layout where
  code : List Instr
  region? : VariableId → Option Region
  /-- There are values that refer to shared storage wherever values are. -/
  shared_le {v : VariableId} {κ : Region} : region? v = some κ → .shared ≤ κ

namespace Layout

variable {L : Layout}

def content? (L : Layout) : Region → Option Region
  | .slot v => L.region? v
  | a => a.content?

theorem content?_eq {a κ : Region} (h : a.content? = some κ) : L.content? a = some κ := by
  cases a <;> first | exact h | cases h

theorem shared_le_of_content? {a κ : Region} (h : L.content? a = some κ) : .shared ≤ κ := by
  unfold content? at h
  split at h
  · exact L.shared_le h
  · exact Region.shared_le_of_content? h

/-- Whatever the operand refers to is in the region.  Temporaries are never written through an address,
so that they may be in several regions. -/
inductive Ranges (L : Layout) : Operand → Region → Prop
  | int {n : Int64} {a : Region} : Ranges L (.int n) a
  | bool {b : Bool} {a : Region} : Ranges L (.bool b) a
  | le {o : Operand} {a b : Region} : Ranges L o a → a ≤ b → Ranges L o b
  | temp {note : Note} {t : TempId} {o : Operand} {a : Region} :
    .storeTemp note t o ∈ L.code → Ranges L o a → Ranges L (.temp t) a
  | own {o : Operand} {v : VariableId} {a κ κ' : Region} :
    Ranges L o (.slot v) → L.region? v = some κ → a.owned? = some κ' → κ ≤ κ' → Ranges L o a
  | addressOf {note : Note} {d : ValueId} {v : VariableId} {name : String} {κ : Region} :
    .define note d (.addressOf v name) ∈ L.code → L.region? v = some κ →
      Ranges L (.computed d) (.slot v)
  | tempAddress {note : Note} {d : ValueId} {t : TempId} {a κ : Region} :
    .define note d (.tempAddress t) ∈ L.code → a.owned? = some κ → a ≠ .data true true →
      Ranges L (.temp t) κ → Ranges L (.computed d) a
  | load {note : Note} {d : ValueId} {o : Operand} {a κ : Region} :
    .define note d (.load o) ∈ L.code → Ranges L o a → L.content? a = some κ →
      Ranges L (.computed d) κ
  | base {note : Note} {d : ValueId} {op : Operation} {o : Operand} {a : Region} :
    .define note d op ∈ L.code → op.base? = some o → Ranges L o a → Ranges L (.computed d) a
  | plain {note : Note} {d : ValueId} {op : Operation} {a : Region} :
    .define note d op ∈ L.code → op.isPlain → Ranges L (.computed d) a
  | guard {note : Note} {d : ValueId} {tested o : Operand} {body : List Instr} {a : Region} :
    .guard note d tested body o ∈ L.code → Ranges L o a → Ranges L (.computed d) a
  | call {note : Note} {d : ValueId} {callee : String} :
    .call note (some d) callee [] ∈ L.code → Ranges L (.computed d) .shared

/-- What the instruction reads, stores, passes on or returns may be where it is or is put; `passes` is
asked of calls with arguments. -/
def Allows (L : Layout) (passes : String → List Operand → Prop) : Instr → Prop
  | .define _ _ (.load o) | .storeTemp _ _ o => ∃ a, L.Ranges o a
  | .store _ target value =>
    (L.Ranges target (.data true true) ∧ L.Ranges value .shared) ∨
      ∃ v κ, L.Ranges target (.slot v) ∧ L.region? v = some κ ∧ L.Ranges value κ
  | .bind _ v _ source => ∃ κ, L.region? v = some κ ∧ L.Ranges source κ
  | .call _ (some _) _ args => args = []
  | .call _ none callee args => passes callee args ∧ ∀ o ∈ args, ∃ a, L.Ranges o a
  | .ret _ (some value) => L.Ranges value (.data false false)
  | .define .. | .guard .. | .ret _ none => True

/-- Temporaries that refer to anything have been stored to. -/
theorem Ranges.exists_store {o : Operand} {a : Region} (h : L.Ranges o a) {t : TempId}
    (ho : o = .temp t) : ∃ note value, .storeTemp note t value ∈ L.code := by
  induction h with
  | le _ _ ih | own _ _ _ _ ih => exact ih ho
  | temp hstore =>
    cases ho
    exact ⟨_, _, hstore⟩
  | int | bool | addressOf | tempAddress | load | base | plain | guard | call => cases ho

/-! ## What defines an operand -/

/-- Whether what the instruction defines is in the region because of what it reads. -/
def Results (L : Layout) : Instr → Region → Prop
  | .define _ _ (.addressOf v _), a => a = .slot v ∧ (L.region? v).isSome
  | .define _ _ (.tempAddress t), a =>
    ∃ κ, a.owned? = some κ ∧ a ≠ .data true true ∧ L.Ranges (.temp t) κ
  | .define _ _ (.load o), κ => ∃ a, L.Ranges o a ∧ L.content? a = some κ
  | .define _ _ op, a => ∀ o, op.base? = some o → L.Ranges o a
  | .storeTemp _ _ o, a | .guard _ _ _ _ o, a => L.Ranges o a
  | .call _ _ _ args, a => args = [] ∧ a = .shared
  | .store .., _ | .bind .., _ | .ret .., _ => False

theorem results_of_base? {note : Note} {d : ValueId} {op : Operation} {o : Operand} {a : Region}
    (hbase : op.base? = some o) (h : L.Ranges o a) : L.Results (.define note d op) a := by
  cases op <;> cases hbase <;>
    · rintro _ ⟨⟩
      exact h

theorem results_of_isPlain {note : Note} {d : ValueId} {op : Operation} {a : Region}
    (h : op.isPlain) : L.Results (.define note d op) a := by
  cases op <;> simp_all [Operation.isPlain, Operation.base?, Results]

end Layout

namespace Instr

/-- What is defined or stored to, as an operand. -/
def result? : Instr → Option Operand
  | .define _ dest _ | .guard _ dest .. => some (.computed dest)
  | .call _ dest .. => dest.map .computed
  | .storeTemp _ temp _ => some (.temp temp)
  | .store .. | .bind .. | .ret .. => none

theorem result?_eq_some {i : Instr} {o : Operand} (h : i.result? = some o) :
    (∃ id, o = .computed id ∧ i.dest? = some id) ∨ ∃ t, o = .temp t ∧ i.stored? = some t := by
  cases i with
  | define | guard =>
    cases h
    exact .inl ⟨_, rfl, rfl⟩
  | call =>
    obtain ⟨id, hid, rfl⟩ := Option.map_eq_some_iff.1 h
    exact .inl ⟨id, rfl, hid⟩
  | storeTemp =>
    cases h
    exact .inr ⟨_, rfl, rfl⟩
  | store | bind | ret => cases h

end Instr

/-- What refers to anything is defined once, by what it refers to. -/
theorem Routine.WellFormed.eq_of_result? {r : Routine} (h : r.WellFormed) {i j : Instr}
    (hi : i ∈ r.instrs) (hj : j ∈ r.instrs) {o : Operand} (hresult : i.result? = some o)
    (hresult' : j.result? = some o) : i = j := by
  rcases Instr.result?_eq_some hresult with ⟨id, rfl, hid⟩ | ⟨t, rfl, ht⟩ <;>
    rcases Instr.result?_eq_some hresult' with ⟨id', ⟨⟩, hid'⟩ | ⟨t', ⟨⟩, ht'⟩
  · exact h.eq_of_dest? hi hj hid hid'
  · exact h.eq_of_stored? hi hj ht ht'

/-- An operand is in a region because of the instruction that defines it, or because what is there
counts as storage of the region. -/
theorem Layout.Ranges.of_result {L : Layout} {i : Instr} {o : Operand}
    (hresult : i.result? = some o) (hunique : ∀ j ∈ L.code, j.result? = some o → j = i)
    {P : Region → Prop} (hresults : ∀ a, L.Results i a → P a) (hle : ∀ a b, P a → a ≤ b → P b)
    (hown : ∀ v a κ κ', P (.slot v) → L.region? v = some κ → a.owned? = some κ' → κ ≤ κ' → P a)
    {a : Region} (h : L.Ranges o a) : P a := by
  induction h with
  | int | bool =>
    rcases Instr.result?_eq_some hresult with ⟨_, h, _⟩ | ⟨_, h, _⟩ <;> cases h
  | le _ hab ih => exact hle _ _ (ih hresult hunique) hab
  | own _ hκ ha hle ih => exact hown _ _ _ _ (ih hresult hunique) hκ ha hle
  | temp hstore h =>
    cases hunique _ hstore rfl
    exact hresults _ h
  | addressOf hdef hκ =>
    cases hunique _ hdef rfl
    exact hresults _ ⟨rfl, by rw [hκ]; rfl⟩
  | tempAddress hdef ha hne h =>
    cases hunique _ hdef rfl
    exact hresults _ ⟨_, ha, hne, h⟩
  | load hdef h hκ =>
    cases hunique _ hdef rfl
    exact hresults _ ⟨_, h, hκ⟩
  | base hdef hbase h =>
    cases hunique _ hdef rfl
    exact hresults _ (Layout.results_of_base? hbase h)
  | plain hdef hplain =>
    cases hunique _ hdef rfl
    exact hresults _ (Layout.results_of_isPlain hplain)
  | guard hguard h =>
    cases hunique _ hguard rfl
    exact hresults _ h
  | call hcall =>
    cases hunique _ hcall rfl
    exact hresults _ ⟨rfl, rfl⟩

theorem Routine.WellFormed.lt_tempCount {r : Routine} (h : r.WellFormed) {note : Note} {t : TempId}
    {value : Operand} (hstore : .storeTemp note t value ∈ r.instrs) : t < r.tempCount := by
  have hmem : t ∈ Instr.stores r.code := List.mem_filterMap.2 ⟨_, hstore, rfl⟩
  exact List.mem_range.1 (h.stores_perm.mem_iff.1 hmem)

end InlineArrays
