import InlineArrays.Machine.Value
import InlineArrays.Proofs.Types.Nesting
import InlineArrays.Proofs.Types.Union

/-!
# Paths through types

A path leads from a type to another through fields of plain structs and elements of inline arrays.
-/

namespace InlineArrays.TypeTable

variable {t : TypeTable} {a b c : TypeId} {path path' : List Step}

inductive Leads (t : TypeTable) : TypeId → List Step → TypeId → Prop
  | nil {a : TypeId} : Leads t a [] a
  | field {a b : TypeId} {struct : StructType} {field : Field} {name : String} {path : List Step} :
    t.struct? a = some struct → struct.kind = .value → struct.field? name = some field →
      Leads t field.type path b → Leads t a (.field name :: path) b
  | element {a b : TypeId} {array : ArrayType} {i : Nat} {path : List Step} :
    t.array? a = some array → i < array.length → Leads t array.element path b →
      Leads t a (.element i :: path) b

namespace Leads

theorem trans (h : t.Leads a path b) (h' : t.Leads b path' c) : t.Leads a (path ++ path') c := by
  induction h with
  | nil => exact h'
  | field hstruct hkind hfield _ ih => exact .field hstruct hkind hfield (ih h')
  | element harray hi _ ih => exact .element harray hi (ih h')

theorem field_right {struct : StructType} {field : Field} {name : String} (h : t.Leads a path b)
    (hstruct : t.struct? b = some struct) (hkind : struct.kind = .value)
    (hfield : struct.field? name = some field) :
    t.Leads a (path ++ [.field name]) field.type := h.trans (.field hstruct hkind hfield .nil)

theorem element_right {array : ArrayType} {i : Nat} (h : t.Leads a path b)
    (harray : t.array? b = some array) (hi : i < array.length) :
    t.Leads a (path ++ [.element i]) array.element := h.trans (.element harray hi .nil)

/-- The types on the way, each holding the next. -/
theorem exists_chain (h : t.Leads a path b) :
    ∃ chain : List TypeId, chain.length = path.length ∧ (a :: chain).IsChain t.HasPart ∧
      ∀ id ∈ a :: chain, id = b ∨ id < t.size := by
  induction h with
  | nil => exact ⟨[], rfl, .singleton _, by simp⟩
  | @field a b struct field name path hstruct hkind hfield _ ih =>
    obtain ⟨chain, hlength, hchain, hids⟩ := ih
    have hget := get_of_struct? hstruct
    have hmem : field ∈ struct.fields := List.mem_of_find?_eq_some hfield
    refine ⟨field.type :: chain, by simp [hlength], .cons_cons ?_ hchain, ?_⟩
    · unfold HasPart parts
      rw [hget]
      simpa [StructType.isClass, hkind] using ⟨field, hmem, rfl⟩
    · refine List.forall_mem_cons.2 ⟨.inr (lt_size ?_), hids⟩
      rw [hget]
      nofun
  | @element a b array i path harray _ _ ih =>
    obtain ⟨chain, hlength, hchain, hids⟩ := ih
    refine ⟨array.element :: chain, by simp [hlength], .cons_cons ?_ hchain, ?_⟩
    · rw [HasPart, parts_of_array? harray]
      exact List.mem_singleton_self _
    · refine List.forall_mem_cons.2 ⟨.inr (lt_size ?_), hids⟩
      rw [get_of_array? harray]
      nofun

/-- Where nothing contains itself, no path is longer than the table. -/
theorem length_lt (ht : ∀ id, t.containsItself id = false) (hb : b < t.size)
    (h : t.Leads a path b) : path.length < t.size := by
  obtain ⟨chain, hlength, hchain, hids⟩ := h.exists_chain
  by_contra hlong
  have hsize : ∀ id ∈ (a :: chain).take (t.size + 1), id < t.size := by
    intro id hid
    rcases hids id (List.mem_of_mem_take hid) with rfl | hlt
    · exact hb
    · exact hlt
  obtain ⟨id, -, hcontains⟩ := exists_containsItself (hchain.take (t.size + 1)) hsize
    (by rw [List.length_take, List.length_cons, hlength]; omega)
  rw [ht id] at hcontains
  cases hcontains

/-- Spans lead nowhere. -/
theorem of_spans {t' : TypeTable} (hspans : Spans t t') (h : t'.Leads a path b) :
    t.Leads a path b := by
  induction h with
  | nil => exact .nil
  | field hstruct hkind hfield _ ih =>
    exact .field (by rwa [hspans.struct?_eq] at hstruct) hkind hfield ih
  | element harray hi _ ih => exact .element (by rwa [hspans.array?_eq] at harray) hi ih

end Leads

/-- No path to an integer takes more steps than there are types. -/
def FinitePaths (t : TypeTable) : Prop := ∀ a path, t.Leads a path int → path.length < t.size

end InlineArrays.TypeTable
