import StateGen.Description.Parser
import StateGen.Proofs.Diagnostic

/-!
# What reading a description reports

Blocks and items go on behind a mistake and report it. Whatever is read, nothing happens to the
diagnostics but that errors are pushed.
-/

namespace StateGen.Description

open Diagnostics (Grows)

variable {α β : Type} {file : SourceFile}

namespace Attempt

/-- An attempt that only pushes errors. -/
def Reports (g : Cursor → Diagnostics → Attempt α) : Prop :=
  ∀ c ds, Grows ds (g c ds).diagnostics

theorem reports_done (value : Cursor → α) : Reports fun c ds ↦ ⟨some (value c), c, ds⟩ :=
  fun _ ds ↦ .refl ds

theorem reports_ofRead (p : Read α) : Reports (ofRead file p) := by
  intro c ds
  unfold ofRead
  split
  · exact .refl ds
  · exact Diagnostics.grows_pushError ds _

theorem Reports.andThen {g : Cursor → Diagnostics → Attempt α}
    {f : α → Cursor → Diagnostics → Attempt β} (hg : Reports g) (hf : ∀ a, Reports (f a)) :
    Reports fun c ds ↦ (g c ds).andThen f := by
  intro c ds
  dsimp only
  unfold Attempt.andThen
  split
  · exact (hg c ds).trans (hf _ _ _)
  · exact hg c ds

theorem reports_block {p : Read α} {hconsumes : p.Consumes} :
    Reports (block file p hconsumes) := by
  intro c ds
  fun_induction block file p hconsumes c ds with
  | case1 => exact .refl _
  | case2 => exact .refl _
  | case3 c ds _ _ b c' _ rest ih => exact ih
  | case4 c ds _ _ f _ ih => exact (Diagnostics.grows_pushError ds _).trans ih

theorem reports_body {p : Read α} {hconsumes : p.Consumes} :
    Reports (body file p hconsumes) := by
  unfold body
  refine (reports_ofRead _).andThen fun opens ↦ ?_
  cases opens
  · exact reports_done _
  · exact reports_block.andThen fun _ ↦ (reports_ofRead _).andThen fun _ ↦ reports_done _

theorem reports_item : Reports fun c ds ↦ itemRest file c.peek c.span c.advance ds := by
  intro c ds
  dsimp only
  unfold itemRest
  split
  · exact ((reports_ofRead _).andThen fun _ ↦ reports_done _) c.advance ds
  · exact ((reports_ofRead _).andThen fun _ ↦ reports_done _) c.advance ds
  · refine (Reports.andThen (g := eventItem file c.span) ?_ fun _ ↦ reports_done _) c.advance ds
    exact (reports_ofRead _).andThen fun _ ↦ reports_body.andThen fun _ ↦ reports_done _
  · refine (Reports.andThen (g := stateItem file c.span) ?_ fun _ ↦ reports_done _) c.advance ds
    exact (reports_ofRead _).andThen fun _ ↦ reports_body.andThen fun _ ↦ reports_done _
  · exact Diagnostics.grows_pushError ds _

end Attempt

theorem grows_itemsFrom (file : SourceFile) (c : Cursor) (ds : Diagnostics) :
    Grows ds (itemsFrom file c ds).2.2 := by
  fun_induction itemsFrom file c ds with
  | case1 c ds _ => exact .refl ds
  | case2 c ds _ x item hx items c' ds' hrest ih =>
    rw [hrest] at ih
    exact (Attempt.reports_item c ds).trans ih
  | case3 c ds _ x hx ih => exact (Attempt.reports_item c ds).trans ih

/-- The mistakes of a description are pushed one by one. -/
theorem grows_ofTokens (file : SourceFile) (tokens : List Token) :
    Grows .empty (ofTokens file tokens).2 :=
  grows_itemsFrom file _ _

end StateGen.Description
