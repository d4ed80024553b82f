import ScriptHost.Proofs.Provider.Refusal
import ScriptHost.Proofs.Provider.TreeWrite

/-!
# What a failed write hands out

A provider of per-call data stores the items that it can and reports the others, and its error carries the
context it got to. Layers are all or nothing: their own error offers no context. But they keep the error of
the layer that failed as its cause, and whoever follows the causes finds what that error carries.

* **`ProviderFault.disclosed`**: the contexts that an error and the errors behind it carry.
* **`Tree.disclosed_cases`**: the whole tree discloses what its first provider of per-call data does, and
  `Tree.mem_disclosed_iff` and `Tree.disclosed_eq_nil_iff` say the same of each context and of none.
* **`Tree.layered_write_disclosed`**: exactly when a failed write of layers discloses a context, and which.
-/

namespace ScriptHost

namespace ProviderFault

/-- The errors behind an error, the nearest first. -/
def causes : ProviderFault → List ProviderFault
  | .failed _ source => source :: source.causes
  | _ => []

/-- The contexts that the error and those behind it carry. -/
def disclosed (e : ProviderFault) : List Context := (e :: e.causes).filterMap committed?

@[simp] theorem disclosed_failed (position : Nat) (source : ProviderFault) :
    (failed position source).disclosed = source.disclosed := rfl

/-- A write that could not store every item offers the context that it got to. -/
@[simp] theorem disclosed_incomplete (kept : Context) (failures : List ItemFault) :
    (incomplete kept failures).disclosed = [kept] := rfl

/-- Layers hide nothing of the error that they wrap. -/
@[simp] theorem disclosed_under (path : List Nat) (e : ProviderFault) :
    (e.under path).disclosed = e.disclosed := by
  induction path with
  | nil => rfl
  | cons position path ih => exact (disclosed_failed position _).trans ih

end ProviderFault

namespace EvalFault

/-- The provider's error behind an error of evaluation. -/
def cause? : EvalFault → Option ProviderFault
  | .enrichment e | .inputData e => some e
  | _ => none

/-- The contexts that the error and those behind it carry. -/
def disclosed (e : EvalFault) : List Context :=
  e.committed?.toList ++ (e.cause?.map ProviderFault.disclosed).getD []

end EvalFault

namespace Buckets

variable {keys : DataKeys} {ctx : Context} {items : List Item} {e : ProviderFault}

/-- A read stops before anything has been stored, so its errors carry no context. -/
theorem disclosed_of_read_error (h : read keys ctx = .error e) : e.disclosed = [] := by
  rcases read_error_cases h with rfl | ⟨found, rfl⟩ <;> rfl

/-- A failed write discloses the context that it could complete, if it could read the stored data. -/
theorem mem_disclosed_iff (h : write keys ctx items = .error e) (kept : Context) :
    kept ∈ e.disclosed ↔ ∃ failures, e = .incomplete kept failures := by
  cases hread : read keys ctx with
  | error fault =>
    rw [write_of_read_error hread] at h
    obtain rfl := Except.error.inj h
    rw [disclosed_of_read_error hread]
    rcases read_error_cases hread with rfl | ⟨found, rfl⟩ <;> simp
  | ok data =>
    -- the stored data has been read, so it is an item that fails
    have hitems : Item.failures items ≠ [] := by
      intro hnone
      rw [write_of_storable hread hnone] at h
      cases h
    rw [write_of_failures hread hitems] at h
    obtain rfl := Except.error.inj h
    simp [eq_comm]

/-- With an item that cannot be stored a write always fails. It then discloses nothing exactly if it could not
even read what is stored already. -/
theorem disclosed_eq_nil_iff (h : write keys ctx items = .error e) (hitems : Item.failures items ≠ []) :
    e.disclosed = [] ↔ ∃ fault, read keys ctx = .error fault := by
  cases hread : read keys ctx with
  | error fault =>
    rw [write_of_read_error hread] at h
    obtain rfl := Except.error.inj h
    simp [disclosed_of_read_error hread]
  | ok data =>
    rw [write_of_failures hread hitems] at h
    obtain rfl := Except.error.inj h
    simp

end Buckets

namespace Layers

variable {items : List Item} {e : ProviderFault}

/-- A walk over layers fails only where one of them does, and it says which. -/
theorem writeAll_error_cases {progress : Progress} {ls : List (Nat × Provider)}
    (h : writeAll items progress ls = .error e) : ∃ position source, e = .failed position source := by
  induction ls generalizing progress with
  | nil => cases h
  | cons l rest ih =>
    rw [writeAll_cons] at h
    -- the first two answers leave the error to the layers above
    rcases step_cases items progress l with ⟨_, _, hstep⟩ | ⟨_, _, _, hstep⟩ | ⟨source, _, _, hstep⟩
    · rw [hstep] at h
      exact ih h
    · rw [hstep] at h
      exact ih h
    · rw [hstep] at h
      exact ⟨l.1, source, (Except.error.inj h).symm⟩

/-- The error of layers, whatever the providers in them are, offers no context itself. -/
theorem committed?_of_write_error {layers : Layers} {ctx : Context}
    (h : write layers ctx items = .error e) : e.committed? = none := by
  cases hall : writeAll items ⟨ctx, false, false⟩ (active layers) with
  | error fault =>
    rw [write_of_writeAll_error hall] at h
    obtain rfl := Except.error.inj h
    obtain ⟨position, source, rfl⟩ := writeAll_error_cases hall
    rfl
  | ok progress =>
    rw [write_of_writeAll_ok hall] at h
    split at h
    · obtain rfl := Except.error.inj h
      rfl
    · cases h

end Layers

namespace Tree

variable {ctx : Context} {items : List Item} {e : ProviderFault}

/-- With items that can all be stored only a read can fail, and it has nothing to disclose. -/
theorem disclosed_of_storable (hitems : Item.failures items = []) {sites : List Site}
    (h : writeSites items ctx sites = .error e) : e.disclosed = [] := by
  -- such a walk fails where a read of the caller's context fails
  have hwalk := writeSites_of_storable hitems (SameFaults.refl ctx) sites
  cases hfault : firstFault? ctx sites with
  | none =>
    obtain ⟨next, hnext, _⟩ := hwalk.2 hfault
    rw [hnext] at h
    cases h
  | some fault =>
    rw [hwalk.1 fault hfault] at h
    obtain rfl := Except.error.inj h
    obtain ⟨s, _, cause, hcause, rfl⟩ := firstFault?_cause hfault
    rw [ProviderFault.disclosed_under, Buckets.disclosed_of_read_error hcause]

/-- An item that cannot be stored is met at the first site, before anything has been stored. -/
theorem first_site_fails (hitems : Item.failures items ≠ []) {s : Site} {rest : List Site}
    (h : writeSites items ctx (s :: rest) = .error e) :
    ∃ cause, Buckets.write s.keys ctx items = .error cause ∧ e = cause.under s.path := by
  -- every site is handed all items, the first one too
  cases hs : Buckets.write s.keys ctx items with
  | ok next =>
    obtain ⟨_, _, hnone, _⟩ := Buckets.write_eq_ok_iff.mp hs
    exact absurd hnone hitems
  | error cause =>
    rw [writeSites_cons_error hs] at h
    exact ⟨cause, rfl, (Except.error.inj h).symm⟩

/-- What a failed write of any tree discloses, by what the first provider of per-call data does alone. -/
theorem disclosed_cases {t : Tree} (h : t.provider.write ctx items = .error e) :
    (e.disclosed = [] ∧ (Item.failures items = [] ∨ t.leaves = [])) ∨
      Item.failures items ≠ [] ∧ ∃ keys cause, t.leaves.head? = some keys ∧
        Buckets.write keys ctx items = .error cause ∧ e.disclosed = cause.disclosed := by
  -- a refusal carries no context, and fixed data has no leaf
  by_cases hfixed : t.AllFixed
  · rw [write_of_allFixed hfixed] at h
    obtain rfl := Except.error.inj h
    exact .inl ⟨rfl, .inr (by rw [leaves, hfixed.sites_eq_nil]; rfl)⟩
  · rw [write_of_not_allFixed hfixed] at h
    -- what is left is a walk; it is the items that decide where it can fail
    by_cases hitems : Item.failures items = []
    · exact .inl ⟨disclosed_of_storable hitems h, .inl hitems⟩
    · cases hsites : t.sites with
      | nil =>
        rw [hsites] at h
        cases h
      | cons s rest =>
        rw [hsites] at h
        obtain ⟨cause, hcause, rfl⟩ := first_site_fails hitems h
        refine .inr ⟨hitems, s.keys, cause, ?_, hcause, ProviderFault.disclosed_under _ _⟩
        rw [leaves, hsites]
        rfl

/-- What the first provider of per-call data discloses alone is all that a failed write of the tree can
disclose: the sites before it are none, and those behind it are not reached. -/
theorem mem_disclosed_iff {t : Tree} (h : t.provider.write ctx items = .error e) (kept : Context) :
    kept ∈ e.disclosed ↔ ∃ keys failures, t.leaves.head? = some keys ∧
      Buckets.write keys ctx items = .error (.incomplete kept failures) := by
  rcases disclosed_cases h with ⟨hnil, hwhy⟩ | ⟨hitems, keys, cause, hfirst, hcause, heq⟩
  · rw [hnil]
    refine ⟨nofun, ?_⟩
    rintro ⟨keys, failures, hfirst, hwrite⟩
    rcases hwhy with hstorable | hleaves
    · -- the provider alone would not fail with a context either
      have hdisclosed : [kept] = [] := disclosed_of_storable hstorable
        (writeSites_cons_error (s := ⟨[], keys⟩) hwrite [])
      cases hdisclosed
    · rw [hleaves] at hfirst
      cases hfirst
  · rw [heq, Buckets.mem_disclosed_iff hcause]
    constructor
    · rintro ⟨failures, rfl⟩
      exact ⟨keys, failures, hfirst, hcause⟩
    · rintro ⟨keys', failures, hfirst', hwrite⟩
      obtain rfl := Option.some.inj (hfirst.symm.trans hfirst')
      exact ⟨failures, Except.error.inj (hcause.symm.trans hwrite)⟩

/-- A failed write of a tree discloses nothing in three cases: all items can be stored, the tree holds no
provider of per-call data, or the first of them finds something that it cannot read. -/
theorem disclosed_eq_nil_iff {t : Tree} (h : t.provider.write ctx items = .error e) :
    e.disclosed = [] ↔ Item.failures items = [] ∨
      ∀ keys, t.leaves.head? = some keys → ∃ fault, Buckets.read keys ctx = .error fault := by
  rcases disclosed_cases h with ⟨hnil, hwhy⟩ | ⟨hitems, keys, cause, hfirst, hcause, heq⟩
  · refine ⟨fun _ => hwhy.imp_right fun hleaves keys hfirst => ?_, fun _ => hnil⟩
    rw [hleaves] at hfirst
    cases hfirst
  · rw [heq, Buckets.disclosed_eq_nil_iff hcause hitems]
    constructor
    · intro hread
      refine .inr fun keys' hfirst' => ?_
      obtain rfl := Option.some.inj (hfirst.symm.trans hfirst')
      exact hread
    · rintro (hnone | hread)
      · exact absurd hnone hitems
      · exact hread keys hfirst

/-- Evaluation hands out what it finds behind the provider's error, and nothing of its own. -/
theorem disclosed_of_enrich_error {p : Provider} (h : p.write ctx items = .error e)
    (hoffer : e.committed? = none) {fault : EvalFault} (hfault : enrich (some p) ctx items = .error fault) :
    fault.committed? = none ∧ fault.disclosed = e.disclosed := by
  obtain ⟨cause, hcause, rfl⟩ := enrich_eq_error_iff.mp hfault
  obtain rfl := Except.error.inj (hcause.symm.trans h)
  refine ⟨hoffer, ?_⟩
  show cause.committed?.toList ++ cause.disclosed = cause.disclosed
  rw [hoffer, Option.toList_none, List.nil_append]

/-- **When layers disclose a context.** The error of a failed write of layers offers no context itself,
also when evaluation has wrapped it. Its causes carry a context exactly if the first provider of per-call
data would hand it out alone. So nothing is disclosed exactly if all items can be stored, if there is no such
provider, or if the stored data of the first one cannot be read. -/
theorem layered_write_disclosed (layers : List (Option Tree)) (ctx : Context) (items : List Item)
    (e : ProviderFault) (h : (Tree.layered layers).provider.write ctx items = .error e) :
    e.committed? = none ∧
    (∀ fault, enrich (some (Tree.layered layers).provider) ctx items = .error fault →
      fault.committed? = none ∧ fault.disclosed = e.disclosed) ∧
    (∀ kept, kept ∈ e.disclosed ↔
      ∃ keys failures, (Tree.layered layers).leaves.head? = some keys ∧
        (Provider.buckets keys).write ctx items = .error (.incomplete kept failures)) ∧
    (e.disclosed = [] ↔
      (∀ (i : Nat) (item : Item), items[i]? = some item → ∃ c, item.classify i = .ok c) ∨
      ∀ keys, (Tree.layered layers).leaves.head? = some keys →
        ∃ fault, (Provider.buckets keys).read ctx = .error fault) := by
  have hoffer : e.committed? = none := Layers.committed?_of_write_error h
  refine ⟨hoffer, fun fault => disclosed_of_enrich_error h hoffer, mem_disclosed_iff h, ?_⟩
  rw [← Item.failures_eq_nil_iff]
  exact disclosed_eq_nil_iff h

/-- A map, and a value that cannot be stored. -/
def halfStorable : List Item := [.map (Buckets.single "kept" (.bool true)), .value .null]

/-- What per-call data holds of them. -/
def halfStored : Context :=
  Context.root.bind "eval_data"
    (.map (Buckets.single "input_data" (.map (Buckets.single "kept" (.bool true)))))

/-- Fixed data below per-call data: an item that cannot be stored fails the write, and its error discloses
the context with the other one. -/
theorem layered_write_disclosed_standard :
    ∃ e, (Tree.layered [some (.fixed ∅), some (.buckets .standard)]).provider.write .root halfStorable
        = .error e ∧
      e.committed? = none ∧ halfStored ∈ e.disclosed := by
  refine ⟨_, rfl, ?_⟩
  have h := layered_write_disclosed [some (.fixed ∅), some (.buckets .standard)] .root halfStorable _ rfl
  exact ⟨h.1, (h.2.2.1 halfStored).mpr ⟨.standard, _, rfl, rfl⟩⟩

/-- Layers that fail do hand out a context: it is among the causes of their error, and it is still there
once evaluation has wrapped the error. -/
theorem layered_write_hands_out_context :
    (∃ e, (Tree.layered [some (.buckets .standard)]).provider.write .root halfStorable = .error e ∧
      ∃ cause ∈ e.causes, cause.committed? = some halfStored) ∧
    (∃ e, enrich (some (Tree.layered [some (.buckets .standard)]).provider) .root halfStorable
        = .error e ∧ halfStored ∈ e.disclosed) :=
  ⟨⟨_, rfl, _, List.mem_singleton_self _, rfl⟩, ⟨_, rfl, List.mem_singleton_self _⟩⟩

end Tree

end ScriptHost
