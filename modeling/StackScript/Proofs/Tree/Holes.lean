import StackScript.Proofs.Tree.Building
import StackScript.Proofs.Tree.Names

set_option autoImplicit false

/-!
# Trees without holes

Main statement: `SyntaxTree.isWhole_of_read`. The reader leaves a hole only where it reports
something, and takes back no report. So the tree of a text about which nothing is reported has an
expression wherever there should be one.
-/
namespace StackScript

variable {r r' : Reader}

theorem Reader.Evolves.quiet (h : r.Evolves r') (hend : r'.diagnostics = #[]) :
    r.diagnostics = #[] := by
  induction h with
  | refl => exact hend
  | skip _ ih => exact ih (ReadM.diagnostics_skip _ ▸ hend)
  | reported _ fault _ => simp [Reader.reported] at hend
  | numbered _ ih => exact ih hend

namespace ReadM

variable {α β : Type} {P : α → Prop} {Q : β → Prop}

/-- Every run of the action that leaves nothing reported found nothing reported, and gives a result
in `P`. -/
def Reads (P : α → Prop) (action : ReadM α) : Prop :=
  ∀ r : Reader, (action.run r).2.diagnostics = #[] → r.diagnostics = #[] ∧ P (action.run r).1

/-- The action takes back nothing that was reported. -/
abbrev Quiet (action : ReadM α) : Prop := Reads (fun _ => True) action

theorem Evolving.quiet {action : ReadM α} (h : Evolving action) : Quiet action :=
  fun r hend => ⟨(h r).quiet hend, trivial⟩

theorem Walks.quiet {row : α → List Piece} {action : ReadM α} (h : Walks row action) :
    Quiet action :=
  h.evolving.quiet

theorem Reads.mono {R : α → Prop} {action : ReadM α} (h : Reads P action) (himp : ∀ x, P x → R x) :
    Reads R action :=
  fun r hend => ⟨(h r hend).1, himp _ (h r hend).2⟩

theorem Reads.pure {x : α} (h : P x) : Reads P (pure x) := fun _ hend => ⟨hend, h⟩

/-- What the second action gives may depend on the result of the first: nothing is known of that
result before the whole run is seen to report nothing. -/
theorem Reads.bind {action : ReadM α} {f : α → ReadM β} (h : Reads P action)
    (hf : ∀ x, Reads (fun y => P x → Q y) (f x)) : Reads Q (action >>= f) := by
  intro r hend
  obtain ⟨hmiddle, hresult⟩ := hf _ _ hend
  obtain ⟨hstart, hfirst⟩ := h r hmiddle
  exact ⟨hstart, hresult hfirst⟩

theorem Reads.andThen {action : ReadM α} {f : α → ReadM β} (h : Reads P action)
    (hf : ∀ x, Reads Q (f x)) : Reads Q (action >>= f) :=
  h.bind fun x => (hf x).mono fun _ hy _ => hy

theorem Reads.map {action : ReadM α} {f : α → β} (h : Reads P action) (hf : ∀ x, P x → Q (f x)) :
    Reads Q (f <$> action) :=
  fun r hend => ⟨(h r hend).1, hf _ (h r hend).2⟩

theorem Reads.guarded {c : Prop} [Decidable c] {action : ReadM Unit} {rest : Unit → ReadM β}
    (haction : Quiet action) (hrest : ∀ x, Reads Q (rest x)) :
    Reads Q (if c then action >>= rest else rest ()) := by
  split
  · exact haction.andThen hrest
  · exact hrest ()

theorem reads_report (fault : SyntaxFault) (span : Span) :
    Reads (fun _ => False) (report fault span) := by
  intro r hend
  change r.diagnostics.push _ = #[] at hend
  simp at hend

theorem reads_reportExpected (what : String) : Reads (fun _ => False) (reportExpected what) :=
  passing_current.quiet.andThen fun _ => reads_report _ _

end ReadM

def Piece.isWhole : Piece → Bool
  | .program tree => tree.isWhole
  | .statement s => s.isWhole
  | .expression e => e.isWhole
  | .name _ | .type _ => true

theorem Expression.listWhole_eq (es : List Expression) :
    listWhole es = (es.map Piece.expression).all Piece.isWhole := by
  induction es with
  | nil => rfl
  | cons e rest ih => rw [listWhole, ih]; rfl

theorem Expression.entriesWhole_eq (entries : List (Expression × Expression)) :
    entriesWhole entries = (Piece.ofEntries entries).all Piece.isWhole := by
  induction entries with
  | nil => rfl
  | cons entry rest ih =>
    rw [entriesWhole, ih, Bool.and_assoc]
    rfl

theorem Expression.isWhole_eq (e : Expression) :
    e.isWhole = (!e.isHole && (Piece.ofExpression e).all Piece.isWhole) := by
  cases e <;> simp [isWhole, isHole, Piece.ofExpression, Piece.isWhole, listWhole_eq,
    entriesWhole_eq]

theorem Statement.listWhole_eq (body : List Statement) :
    listWhole body = (body.map Piece.statement).all Piece.isWhole := by
  induction body with
  | nil => rfl
  | cons s rest ih => rw [listWhole, ih]; rfl

theorem Statement.optionalWhole_eq (value : Option Expression) :
    optionalWhole value = (Piece.ofValue value).all Piece.isWhole := by
  cases value <;> simp [optionalWhole, Piece.ofValue, Piece.isWhole]

theorem Statement.isWhole_of_pieces {s : Statement}
    (h : (Piece.ofStatement s).all Piece.isWhole) : s.isWhole := by
  cases s with
  | branch _ _ _ otherwise =>
    cases otherwise <;> simp_all [isWhole, Piece.ofStatement, Piece.isWhole]
  | _ => simp_all [isWhole, Piece.ofStatement, Piece.isWhole, listWhole_eq, optionalWhole_eq]

theorem Builds.isWhole {row : List Piece} (h : Builds r row r') (hend : r'.diagnostics = #[]) :
    row.all Piece.isWhole := by
  induction h with
  | nil r => rfl
  | pass _ _ ih | name _ _ ih | type _ _ ih => exact ih hend
  | hole _ _ passes rest _ =>
    have hreported := passes.evolves.quiet (rest.evolves.quiet hend)
    simp [Reader.reported] at hreported
  | expression whole _ _ _ rest ihparts ih =>
    have hparts := ihparts (rest.evolves.quiet hend)
    simp [Piece.isWhole, Expression.isWhole_eq, whole, hparts, ih hend]
  | statement _ _ _ rest ihparts ih =>
    have hparts := Statement.isWhole_of_pieces (ihparts (rest.evolves.quiet hend))
    simp [Piece.isWhole, hparts, ih hend]

theorem SyntaxTree.isWhole_of_read {source : String}
    (h : (SyntaxTree.read source).diagnostics = []) :
    (SyntaxTree.read source).tree.isWhole := by
  obtain ⟨last, hlast, hbuilds⟩ :=
    SyntaxTree.builds_ofTokens (tokenize source).tokens ⟨0, source.utf8ByteSize⟩
  rw [SyntaxTree.isWhole, Statement.listWhole_eq]
  refine hbuilds.isWhole (Array.toList_eq_nil_iff.mp ?_)
  exact hlast.trans (List.append_eq_nil_iff.mp h).2

end StackScript
