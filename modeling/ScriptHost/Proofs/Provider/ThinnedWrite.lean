import Mathlib.Data.List.ReduceOption
import ScriptHost.Proofs.Provider.LayerPositions
import ScriptHost.Proofs.Provider.TreeWalk

/-!
# Layers that leave no trace in a write

A write hands the context from layer to layer, counts nothing but whether some layer has accepted or refused,
and ends at the first layer that fails. What that means for a list of providers, whatever the providers are:

* **`write_thinned`**: gaps, and layers that refuse every write, can be taken out without changing anything but
  the position in an error, as long as some layer is left.
* **`write_of_failsFirst`**: the lowest layer that fails on the context that reaches it gives the error, with
  its position.
-/

namespace ScriptHost

/-- The provider refuses every write as fixed data does, be it in so many words or from further inside. -/
def Provider.RefusesWrites (p : Provider) : Prop :=
  ∀ ctx items, ∃ e, p.write ctx items = .error e ∧ e.isFixedRefusal = true

namespace Layers

open ProviderFault (renumbered)

variable {items : List Item} {ctx : Context} {layers : Layers} {i : Nat} {e : ProviderFault}
  {progress after : Progress} {ls : List (Nat × Provider)} {l : Nat × Provider}

/-! ## The walk over the layers

Positions are carried along for errors only, and a walk never compares them. -/

/-- A layer that stands elsewhere does the same, and fails under its new number. -/
theorem step_renumbered (items : List Item) (progress : Progress) (f : Nat → Nat) (l : Nat × Provider) :
    step items progress (f l.1, l.2) = (step items progress l).mapError (renumbered f) := by
  rcases step_cases items progress l with ⟨next, h, hstep⟩ | ⟨e, h, he, hstep⟩ | ⟨e, h, he, hstep⟩
  · rw [hstep]
    exact writeAll_accept h
  · rw [hstep]
    exact writeAll_refuse h he
  · rw [hstep]
    exact writeAll_fail h he

/-- So a walk over layers that stand elsewhere goes the same way. -/
theorem writeAll_renumbered (items : List Item) (progress : Progress) (f : Nat → Nat)
    (ls : List (Nat × Provider)) :
    writeAll items progress (ls.map fun l => (f l.1, l.2))
      = (writeAll items progress ls).mapError (renumbered f) := by
  -- `writeAll_map` wants a change of progress too, which there is none of here
  have hstep : ∀ l ∈ ls, ∀ progress : Progress, step items (id progress) (f l.1, l.2)
      = ((step items progress l).map id).mapError (renumbered f) :=
    fun l _ progress => by rw [Except.map_id]; exact step_renumbered items progress f l
  have hwalk := writeAll_map hstep progress
  rwa [Except.map_id] at hwalk

/-! ## Refusals

A layer that always refuses has one effect, a note (`Progress.noting`). The note can be made at any time, so the
layers that make it can be collected and left out. -/

/-- The same progress, with a note of a refusal if there was one. -/
def Progress.noting (refusal : Bool) (progress : Progress) : Progress :=
  { progress with refused := progress.refused || refusal }

/-- A layer does not look at the notes, and leaves those that are there. -/
theorem step_noting (items : List Item) (refusal : Bool) (progress : Progress) (l : Nat × Provider) :
    step items (progress.noting refusal) l = (step items progress l).map (.noting refusal) := by
  rcases step_cases items progress l with ⟨next, h, hstep⟩ | ⟨e, h, he, hstep⟩ | ⟨e, h, he, hstep⟩
  · rw [hstep]
    exact writeAll_accept h
  · rw [hstep]
    exact writeAll_refuse h he
  · rw [hstep]
    exact writeAll_fail h he

/-- It makes no difference whether a refusal is noted before or after the other layers. -/
theorem writeAll_noting (items : List Item) (refusal : Bool) (progress : Progress)
    (ls : List (Nat × Provider)) :
    writeAll items (progress.noting refusal) ls
      = (writeAll items progress ls).map (.noting refusal) := by
  have hstep : ∀ l ∈ ls, ∀ progress : Progress, step items (progress.noting refusal) (id l)
      = ((step items progress l).map (.noting refusal)).mapError id := fun l _ progress => by
    rw [id, step_noting]
    cases step items progress l <;> rfl
  have hwalk := writeAll_map hstep progress
  rw [List.map_id] at hwalk
  rw [hwalk]
  cases writeAll items progress ls <;> rfl

/-- A layer that refuses every write adds a note of it. -/
theorem step_of_refusesWrites (h : l.2.RefusesWrites) (items : List Item) (progress : Progress) :
    step items progress l = .ok (progress.noting true) := by
  obtain ⟨e, hwrite, he⟩ := h progress.context items
  rw [step, writeAll_refuse hwrite he, Progress.noting, Bool.or_true]
  rfl

/-- Layers that refuse every write leave a note of it and nothing else. -/
theorem writeAll_filter {keep : Nat → Bool} (h : ∀ l ∈ ls, keep l.1 = false → l.2.RefusesWrites)
    (items : List Item) (progress : Progress) :
    ∃ refusal, writeAll items progress ls
      = (writeAll items progress (ls.filter fun l => keep l.1)).map (.noting refusal) := by
  induction ls generalizing progress with
  | nil => exact ⟨false, by simp [writeAll, Except.map, Progress.noting]⟩
  | cons l rest ih =>
    have hrest := ih fun l' hl' => h l' (List.mem_cons_of_mem _ hl')
    rw [List.filter_cons, writeAll_cons]
    cases hkeep : keep l.1 with
    | false =>
      -- the layer is left out: its note is made first, and can be made last
      obtain ⟨refusal, hafter⟩ := hrest (progress.noting true)
      refine ⟨true, ?_⟩
      rw [step_of_refusesWrites (h l List.mem_cons_self hkeep), Except.bind, hafter, writeAll_noting,
        if_neg Bool.false_ne_true]
      cases writeAll items progress (rest.filter fun l => keep l.1) with
      | error e => rfl
      | ok after => simp [Except.map, Progress.noting]
    | true =>
      rw [if_pos rfl, writeAll_cons]
      cases step items progress l with
      | error e => exact ⟨false, rfl⟩
      | ok after => exact hrest after

/-! ## The verdict

Whether a write is refused is decided at the end from two notes: that no layer has accepted it, and that some
layer has refused it. Where some layer is left, it accepts, refuses or fails, and the verdict does not need the
notes of the others. -/

/-- How a write ends whose layers have all been passed. -/
def Progress.verdict (after : Progress) : Except ProviderFault Context :=
  if !after.accepted && after.refused then .error .fixedData else .ok after.context

/-- A write is the walk over the active layers, and the verdict on what it has noted. -/
theorem write_eq_bind (layers : Layers) (ctx : Context) (items : List Item) :
    (Provider.layered layers).write ctx items
      = (writeAll items ⟨ctx, false, false⟩ (active layers)).bind Progress.verdict := by
  show write layers ctx items = _
  cases h : writeAll items ⟨ctx, false, false⟩ (active layers) with
  | error e => exact write_of_writeAll_error h
  | ok after => exact write_of_writeAll_ok h

/-- Only the error of a single layer names a position. -/
theorem Progress.mapError_verdict (after : Progress) (f : Nat → Nat) :
    after.verdict.mapError (renumbered f) = after.verdict := by
  unfold verdict
  split <;> rfl

/-- Some layer has accepted the write or refused it. -/
def Progress.Answered (progress : Progress) : Prop :=
  progress.accepted = true ∨ progress.refused = true

/-- One more refusal does not change the verdict once some layer has answered: after an acceptance it does not
count, and after a refusal it says nothing new. -/
theorem Progress.Answered.verdict_noting (h : after.Answered) (refusal : Bool) :
    (after.noting refusal).verdict = after.verdict := by
  obtain ⟨context, accepted, refused⟩ := after
  rcases h with rfl | rfl <;> simp [Progress.verdict, Progress.noting]

/-- A layer that is passed has answered. -/
theorem answered_of_step (h : step items progress l = .ok after) : after.Answered := by
  rcases step_cases items progress l with ⟨next, _, hstep⟩ | ⟨e, _, _, hstep⟩ | ⟨e, _, _, hstep⟩
  · obtain rfl := Except.ok.inj (hstep.symm.trans h)
    exact .inl rfl
  · obtain rfl := Except.ok.inj (hstep.symm.trans h)
    exact .inr rfl
  · cases hstep.symm.trans h

/-- A walk that passes a layer at all has an answer in the end. -/
theorem answered_of_writeAll (hp : progress.Answered ∨ ls ≠ [])
    (h : writeAll items progress ls = .ok after) : after.Answered := by
  -- an answer is there already, or the first layer gives one
  induction ls generalizing progress with
  | nil =>
    obtain rfl := Except.ok.inj h
    exact hp.resolve_right (· rfl)
  | cons l rest ih =>
    rw [writeAll_cons] at h
    cases hstep : step items progress l with
    | error e => rw [hstep] at h; cases h
    | ok mid =>
      rw [hstep] at h
      exact ih (.inl (answered_of_step hstep)) h

/-- Layers that refuse every write can be taken out, as long as some layer is left. -/
theorem write_thinned {keep : Nat → Bool}
    (hrefuse : ∀ i p, layers[i]? = some (some p) → keep i = false → p.RefusesWrites)
    (hkeep : ∃ i p, layers[i]? = some (some p) ∧ keep i = true) (ctx : Context) (items : List Item) :
    (Provider.layered (thinned keep layers)).write ctx items
      = ((Provider.layered layers).write ctx items).mapError (renumbered (thinnedPosition keep layers)) := by
  obtain ⟨refusal, hall⟩ := writeAll_filter (fun l hl => hrefuse l.1 l.2 (mem_active_iff.mp hl)) items
    ⟨ctx, false, false⟩
  -- some layer is left, and answers unless it fails
  have hleft : (active layers).filter (fun l => keep l.1) ≠ [] := by
    obtain ⟨i, p, hp, hi⟩ := hkeep
    have hmem : (i, p) ∈ active layers := mem_active_iff.mpr hp
    exact List.ne_nil_of_mem (List.mem_filter.mpr ⟨hmem, hi⟩)
  rw [write_eq_bind, write_eq_bind, active_thinned, writeAll_renumbered, hall]
  cases h : writeAll items ⟨ctx, false, false⟩ ((active layers).filter fun l => keep l.1) with
  | error e => rfl
  | ok after =>
    show after.verdict = (after.noting refusal).verdict.mapError _
    rw [(answered_of_writeAll (.inr hleft) h).verdict_noting, Progress.mapError_verdict]

/-! ## The first failure

What a layer does depends on the context that reaches it, which is what the layers below have made of the
caller's. A walk that meets no failure ends with exactly that context (`writeAll_of_writable`). -/

/-- The context that a layer hands on: its own if it accepts the write, and otherwise the one it was given. -/
def handOn (items : List Item) (ctx : Context) (p : Provider) : Context :=
  match p.write ctx items with
  | .ok next => next
  | .error _ => ctx

/-- The context that reaches the layers above these. -/
def handedOn (items : List Item) (ctx : Context) (below : Layers) : Context :=
  below.reduceOption.foldl (handOn items) ctx

/-- A layer fails to write into the context that reaches it, other than by a refusal. -/
def CannotWrite (items : List Item) (ctx : Context) (below : Layers) (p : Provider) (e : ProviderFault) : Prop :=
  p.write (handedOn items ctx below) items = .error e ∧ e.isFixedRefusal = false

theorem handedOn_append (items : List Item) (ctx : Context) (below more : Layers) :
    handedOn items ctx (below ++ more) = handedOn items (handedOn items ctx below) more := by
  rw [handedOn, List.reduceOption_append, List.foldl_append, handedOn, handedOn]

/-- The walk over upper layers goes on from where the walk over the lower ones has ended. -/
theorem writeAll_append (items : List Item) (progress : Progress) (ls more : List (Nat × Provider)) :
    writeAll items progress (ls ++ more)
      = (writeAll items progress ls).bind fun after => writeAll items after more := by
  induction ls generalizing progress with
  | nil => rfl
  | cons l rest ih =>
    rw [List.cons_append, writeAll_cons, writeAll_cons]
    cases step items progress l with
    | error e => rfl
    | ok after => exact ih after

/-- Layers none of which fails are passed, and hand the context on. -/
theorem writeAll_of_writable (h : ∀ j e', ¬ FailsAt (CannotWrite items ctx) layers j e') :
    ∃ after, writeAll items ⟨ctx, false, false⟩ (active layers) = .ok after ∧
      after.context = handedOn items ctx layers := by
  -- from the top: whether the last layer fails depends on what those below hand to it
  induction layers using List.reverseRecOn with
  | nil => exact ⟨_, rfl, rfl⟩
  | append_singleton layers layer ih =>
    obtain ⟨mid, hmid, hcontext⟩ := ih fun j e' hj => h j e' (hj.append _)
    rw [active_append, writeAll_append, hmid, handedOn_append, ← hcontext]
    cases layer with
    | none => exact ⟨mid, rfl, rfl⟩
    | some p =>
      show ∃ after, step items mid (layers.length, p) = .ok after ∧ after.context = handOn items mid.context p
      rw [handOn]
      rcases step_cases items mid (layers.length, p) with ⟨next, hw, hs⟩ | ⟨e, hw, he, hs⟩ | ⟨e, hw, he, hs⟩
      · exact ⟨_, hs, by rw [hw]⟩
      · exact ⟨_, hs, by rw [hw]⟩
      · rw [hcontext] at hw
        exact absurd (failsAt_length ⟨hw, he⟩ []) (h _ e)

/-- The lowest layer that fails gives the error. The layers below it are passed, and hand it the context on
which it fails. -/
theorem write_of_failsFirst (h : FailsFirst (CannotWrite items ctx) layers i e) :
    (Provider.layered layers).write ctx items = .error (.failed i e) := by
  obtain ⟨front, p, rest, rfl, rfl, ⟨hwrite, he⟩, hfront⟩ := h.split
  obtain ⟨mid, hmid, hcontext⟩ := writeAll_of_writable hfront
  -- the walk has reached the very context on which the layer fails
  rw [← hcontext] at hwrite
  rw [write_eq_bind, active_append, writeAll_append, hmid, activeFrom]
  show (writeAll items mid ((front.length, p) :: _)).bind _ = _
  rw [writeAll_fail hwrite he]
  rfl

/-- **What changes nothing in a write.** Gaps, and any layers that refuse every write, may be taken out if some
layer is left: the write ends with the same context, or with the same error for the same layer at its new
position. If some layer fails other than by a refusal, then the lowest such layer gives the error, at its
position with the gaps counted, whatever stands above it. -/
theorem write_thinned_and_first_failure (layers : Layers) (ctx : Context) (items : List Item) :
    (∀ keep : Nat → Bool, (∀ i p, layers[i]? = some (some p) → keep i = false → p.RefusesWrites) →
      (∃ i p, layers[i]? = some (some p) ∧ keep i = true) →
      (Provider.layered (thinned keep layers)).write ctx items
          = ((Provider.layered layers).write ctx items).mapError
              (renumbered (thinnedPosition keep layers)) ∧
        ∀ i p, layers[i]? = some (some p) → keep i = true →
          (thinned keep layers)[thinnedPosition keep layers i]? = some (some p)) ∧
    ((∃ i e, FailsAt (CannotWrite items ctx) layers i e) →
      ∃ i e, FailsFirst (CannotWrite items ctx) layers i e ∧
        ∀ layers' : Layers, layers'.take (i + 1) = layers.take (i + 1) →
          (Provider.layered layers').write ctx items = .error (.failed i e)) := by
  refine ⟨fun keep hrefuse hkeep => ⟨write_thinned hrefuse hkeep ctx items, fun i p => getElem?_thinned⟩,
    fun hfails => ?_⟩
  obtain ⟨i, e, hfirst⟩ := exists_failsFirst hfails
  exact ⟨i, e, hfirst, fun layers' hbelow => write_of_failsFirst (hfirst.congr hbelow)⟩

/-- Refuses every write, and says so from further inside. -/
def sealedInside : Provider where
  read _ := .ok ∅
  write _ _ := .error (.failed 3 .fixedData)

/-- A provider that takes writes and one without a key, among a gap and two refusals. -/
def grudging : Layers :=
  [none, some sealedInside, some (.buckets .standard), some (.fixed ∅),
    some (.buckets { DataKeys.standard with contextKey := "" })]

/-- The provider without a key fails in both lists, in each at its own position. -/
theorem write_thinned_and_first_failure_grudging :
    (∀ i p, grudging[i]? = some (some p) → (i % 2 == 0) = false → p.RefusesWrites) ∧
    FailsAt (CannotWrite [] .root) grudging 4 .emptyKey ∧
    (Provider.layered grudging).write .root [] = .error (.failed 4 .emptyKey) ∧
    (Provider.layered (thinned (fun i => i % 2 == 0) grudging)).write .root []
      = .error (.failed 1 .emptyKey) := by
  have hrefuse : ∀ i p, grudging[i]? = some (some p) → (i % 2 == 0) = false → p.RefusesWrites
    | 1, p, hp, _ => by
      obtain rfl : sealedInside = p := Option.some.inj (Option.some.inj hp)
      exact fun _ _ => ⟨_, rfl, rfl⟩
    | 3, p, hp, _ => by
      obtain rfl : Provider.fixed ∅ = p := Option.some.inj (Option.some.inj hp)
      exact fun _ _ => ⟨_, rfl, rfl⟩
    | 4, _, _, hi => nomatch hi
    | _ + 5, _, hp, _ => nomatch hp
  have hat : FailsAt (CannotWrite [] .root) grudging 4 .emptyKey := ⟨_, rfl, rfl, rfl⟩
  obtain ⟨hthinned, hfirst⟩ := write_thinned_and_first_failure grudging .root []
  obtain ⟨i, e, -, hwrites⟩ := hfirst ⟨4, _, hat⟩
  have hgrudging := hwrites grudging rfl
  obtain ⟨rfl, rfl⟩ : 4 = i ∧ .emptyKey = e := ProviderFault.failed.inj (Except.error.inj hgrudging)
  refine ⟨hrefuse, hat, hgrudging, ?_⟩
  rw [(hthinned _ hrefuse ⟨2, _, rfl, rfl⟩).1, hgrudging]
  rfl

end Layers

end ScriptHost
