import InlineArrays.Proofs.Method.Rendered
import Mathlib

/-!
# Diagnostics quote expressions

The span of an expression is that of a text in the source, and the text is the listing of the
expression.  Diagnostics stand at spans of expressions, so what they quote is in the source where
they stand.
-/

namespace InlineArrays

/-- A violation of a read-only path names the expression that it quotes. -/
theorem Violation.exists_quoted? {v : Violation}
    (h : v.code = .readonlyAssignment ∨ v.code = .readonlyRefUse) :
    ∃ text, v.quoted? = some text ∧ v.args.head? = some text := by
  cases v with
  | readonlyRefUse place | readonlyAssignment place => exact ⟨place, rfl, rfl⟩
  | _ => rcases h with h | h <;> cases h

namespace Context

variable {c : Context} {v : Validator} {d : Diagnostic}

theorem Finds.exists_span (h : c.Finds v d) (hcoherent : c.method.Coherent) :
    ∃ e, c.method.Records e ∧ d.span = c.method.span e := by
  obtain ⟨e, hused, hconcerns⟩ := h
  exact ⟨e, hcoherent.records_of_used hused, hconcerns.span_eq⟩

end Context

/-- What a validator quotes of a finished body is in the source where it reports it. -/
theorem Body.Coherent.quotes_of_finds {b : Body} (h : b.Coherent) {types : TypeTable}
    {members : MemberTable} {v : Validator} {d : Diagnostic} {text : String}
    (hfinds : Context.Finds ⟨types, members, b.finish⟩ v d)
    (htext : d.violation.quoted? = some text) : d.span.Quotes b.listing.source text := by
  obtain ⟨e, hused, hconcerns⟩ := hfinds
  have he : b.Records e := h.records_of_used hused
  have hrenders : b.Renders e := renders_of_used hused
  rw [hconcerns.span_eq, hconcerns.quotes text htext]
  exact h.text_of_renders he hrenders ▸ h.quotes_of_renders he hrenders

/-- In the listing of a body, however often its expressions are used, the span of each expression
that occurs is that of its own listing; the spans of the statements are those of their lines, which
make up the source; and every diagnostic on the body stands at the span of an expression of the body,
where an expression that it names as read-only is the text. -/
theorem Body.Built.spans_quote {b : Body} (hb : b.Built) :
    (∀ e, b.Records e → b.Renders e →
      (b.finish.span e).Quotes b.listing.source (e.listing b.vars).text ∧
        b.finish.text e = (e.listing b.vars).text) ∧
    (List.Forall₂ (fun span s ↦ span.Quotes b.listing.source (s.listing b.vars b.returns).text)
        b.listing.statements b.statements ∧
      b.listing.statements.Pairwise (fun span later ↦ span.stop < later.start) ∧
      SourceSpan.Tile b.listing.source 0 b.listing.statements b.listing.source.utf8ByteSize) ∧
    ∀ (types : TypeTable) (members : MemberTable) (ds : List Diagnostic),
      (⟨types, members, b.finish⟩ : Context).validate? = some ds → ∀ d ∈ ds,
        (∃ e, b.Records e ∧ d.span = b.finish.span e) ∧
        (d.code = .readonlyAssignment ∨ d.code = .readonlyRefUse →
          ∃ text, d.violation.args.head? = some text ∧ d.span.Quotes b.listing.source text) := by
  have h := hb.coherent
  have hlines := b.written_lines
  refine ⟨fun e he hrenders ↦ ⟨h.quotes_of_renders he hrenders, h.text_of_renders he hrenders⟩,
    ⟨hlines.quotes, hlines.tile.pairwise, hlines.tile⟩, fun types members ds hds d hd ↦ ?_⟩
  obtain ⟨v, hv⟩ := Context.finds_of_validate? hds hd
  refine ⟨hv.exists_span h, fun hcode ↦ ?_⟩
  obtain ⟨text, hquoted, hhead⟩ := Violation.exists_quoted? hcode
  exact ⟨text, hhead, h.quotes_of_finds hv hquoted⟩

namespace ReadonlyRow

/-- A read-only parameter of an inline array. -/
def declared : Body :=
  (Body.declare { name := "Main" } { name := "é", kind := .parameter .input, type := 7 }).2

def row : Expr := .var 0 0

def zero : Expr := .int 1 0

/-- The constant `zero` is the index. -/
def cell : Expr := .element 2 row [{ value := zero }]

def one : Expr := .int 3 1

def recorded : Body := { declared with exprs := #[row, zero, cell, one] }

/-- Assigns the element twice: the access is one expression, and so is the constant that is its
index and the second value. -/
def assignsTwice : Body := (recorded.append (.assign cell one)).append (.assign cell zero)

theorem built_recorded : recorded.Built := by
  have hdeclared : declared.Built := .declare _ (.empty _)
  have hrow : (declared.record (.var · 0)).2.Built :=
    hdeclared.record (fun _ ↦ rfl) (by simp [Body.record, Expr.children])
  have hzero : ((declared.record (.var · 0)).2.record (.int · 0)).2.Built :=
    hrow.record (fun _ ↦ rfl) (by simp [Body.record, Expr.children])
  have hcell : (({ declared with exprs := #[row, zero] } : Body).record
      (.element · row [{ value := zero }])).2.Built := by
    refine hzero.record (fun _ ↦ rfl) ?_
    rintro part (_ | ⟨_, _ | ⟨_, ⟨⟩⟩⟩)
    exacts [rfl, rfl]
  have hone : (({ declared with exprs := #[row, zero, cell] } : Body).record (.int · 1)).2.Built :=
    hcell.record (fun _ ↦ rfl) (by simp [Body.record, Expr.children])
  exact hone

theorem built_assignsTwice : assignsTwice.Built := by
  refine (built_recorded.append ?_).append ?_
  · rintro e (_ | ⟨_, _ | ⟨_, ⟨⟩⟩⟩)
    exacts [rfl, rfl]
  · rintro e (_ | ⟨_, _ | ⟨_, ⟨⟩⟩⟩)
    exacts [rfl, rfl]

def context : Context where
  types := ⟨[.array ⟨"Row", TypeTable.int, 2⟩, .span TypeTable.int false, .span TypeTable.int true]⟩
  members := {}
  method := assignsTwice.finish

def notAssignable : Diagnostic where
  violation := .readonlyAssignment "é[0]"
  span := ⟨11, 16⟩

theorem validate_context : context.validate? = some [notAssignable] := by
  cbv

/-- The access has the span of its second occurrence, where the assignment to it is reported. -/
theorem quotes_cell :
    assignsTwice.listing.source = "é[0] = 1;\né[0] = 0;\n" ∧
      notAssignable.span = assignsTwice.finish.span cell ∧
      (assignsTwice.finish.span cell).Quotes assignsTwice.listing.source "é[0]" ∧
      ∃ text, notAssignable.violation.args.head? = some text ∧
        notAssignable.span.Quotes assignsTwice.listing.source text :=
  have h := Body.Built.spans_quote built_assignsTwice
  ⟨by cbv, by cbv, (h.1 cell rfl (Body.renders_of_used (.head _))).1,
    (h.2.2 _ _ _ validate_context _ (.head _)).2 (.inl rfl)⟩

end ReadonlyRow

end InlineArrays
