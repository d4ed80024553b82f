import ScriptHost.Failure
import ScriptHost.Proofs.Provider.TreeWalk

/-!
# Refused writes

When a tree of providers refuses a write as fixed data. The refusal steers how layers go on, so it must not
be taken for another failure, nor the other way round, at any depth. The shape of the tree alone decides
(`Tree.AllFixed`): neither the context nor the items do.
-/

namespace ScriptHost.Tree

variable {t : Tree} {ctx : Context} {items : List Item}

/-- A refusal is never wrapped, and only trees of fixed data give it. -/
theorem allFixed_of_refusal {e : ProviderFault} (h : t.provider.write ctx items = .error e)
    (he : e.isFixedRefusal = true) : t.AllFixed ∧ e = .fixedData := by
  by_cases hfixed : t.AllFixed
  · rw [write_of_allFixed hfixed] at h
    exact ⟨hfixed, (Except.error.inj h).symm⟩
  · -- the error of a walk over the sites is no refusal
    rw [write_of_not_allFixed hfixed] at h
    rw [writeSites_error_not_refusal h] at he
    cases he

/-- A tree refuses exactly if it is fixed data throughout, whatever the context and the items are. -/
theorem exists_refusal_iff (t : Tree) (ctx : Context) (items : List Item) :
    (∃ e, t.provider.write ctx items = .error e ∧ e.isFixedRefusal = true) ↔ t.AllFixed := by
  constructor
  · rintro ⟨e, h, he⟩
    exact (allFixed_of_refusal h he).1
  · intro hfixed
    exact ⟨.fixedData, write_of_allFixed hfixed ctx items, rfl⟩

/-- A tree without per-call data that is not fixed throughout takes a write and stores nothing. -/
theorem write_of_no_leaves (hopen : ¬ t.AllFixed) (h : t.leaves = []) :
    t.provider.write ctx items = .ok ctx := by
  have hsites : t.sites = [] := List.map_eq_nil_iff.mp h
  rw [write_of_not_allFixed hopen, hsites]
  rfl

/-- Evaluation wraps the provider's error once, and has none of its own when there is a provider. -/
theorem enrich_eq_error_iff {p : Provider} {e : EvalFault} :
    enrich (some p) ctx items = .error e ↔
      ∃ cause, p.write ctx items = .error cause ∧ e = .enrichment cause := by
  show (p.write ctx items).mapError EvalFault.enrichment = .error e ↔ _
  cases p.write ctx items with
  | error cause => simp [Except.mapError, eq_comm]
  | ok next => simp [Except.mapError]

/-- **The shape decides.** A write is refused as by fixed data exactly if the tree is fixed data throughout.
The refusal is then the bare one, and it is still recognised once evaluation has wrapped it. A tree that
is not fixed throughout but holds no provider of per-call data leaves the context as it is. -/
theorem refusal_decided_by_shape (t : Tree) (ctx : Context) (items : List Item) :
    ((∃ e, t.provider.write ctx items = .error e ∧ e.isFixedRefusal = true) ↔ t.AllFixed) ∧
    (∀ e, t.provider.write ctx items = .error e → e.isFixedRefusal = true → e = .fixedData) ∧
    ((∃ e, enrich (some t.provider) ctx items = .error e ∧
      (Failure.eval e).isFixedRefusal = true) ↔ t.AllFixed) ∧
    (∀ e, enrich (some t.provider) ctx items = .error e →
      (Failure.eval e).isFixedRefusal = true → e = .enrichment .fixedData) ∧
    (¬ t.AllFixed → t.leaves = [] → t.provider.write ctx items = .ok ctx) := by
  refine ⟨exists_refusal_iff t ctx items, fun e h he => (allFixed_of_refusal h he).2, ?_, ?_,
    write_of_no_leaves⟩
  · rw [← exists_refusal_iff t ctx items]
    constructor
    · rintro ⟨e, h, he⟩
      obtain ⟨cause, hcause, rfl⟩ := enrich_eq_error_iff.mp h
      exact ⟨cause, hcause, he⟩
    · rintro ⟨cause, hcause, he⟩
      exact ⟨.enrichment cause, enrich_eq_error_iff.mpr ⟨cause, hcause, rfl⟩, he⟩
  · intro e h he
    obtain ⟨cause, hcause, rfl⟩ := enrich_eq_error_iff.mp h
    rw [(allFixed_of_refusal hcause he).2]

end ScriptHost.Tree
