import Mathlib.Data.List.Forall2
import ScriptHost.Proofs.Provider.TreeWalk

/-!
# Histories of contexts

Contexts are derived from contexts, in any order and any number of times, so a history of them branches. A
`History` holds all contexts and tokens so far, and a `Step` derives one more or cancels a token. What a
step sequence makes of a context can also be told without running it, from the way that leads to the
context: a `Path` is the list of its derivations, and `Trace` collects the paths of all contexts.

* **`Tree.write_entries`**: a write to a tree of providers is an entry for each provider of per-call data,
  and leaves the token alone.
* **`History.Follows`**: the invariant. Entries and lineage of a context are those of its path.
* **`History.run_follows_paths`**: values and cancellation of every context in every history.
-/

namespace ScriptHost

/-- Lists that are related item by item are related at each place, and end at the same place. -/
theorem rel_getElem? {α β : Type} {R : α → β → Prop} {l : List α} {l' : List β}
    (h : List.Forall₂ R l l') (i : Nat) : Option.Rel R l[i]? l'[i]? := by
  induction h generalizing i with
  | nil => exact .none
  | cons hhead _ ih =>
    cases i with
    | zero => exact .some hhead
    | succ i => exact ih i

/-! ## What a write adds to the entries

Later parts of a history see a write by its entries only. What they are depends on the entries before the write
and not on the token, so it can be said of a list of entries. -/

namespace Buckets

/-- The map that entries hold under a key; something else there counts as an empty one. -/
def storedIn (entries : List (String × Value)) (key : String) : DataMap :=
  ((entries.lookup key).bind Value.asMap?).getD ∅

/-- The entries after a provider of per-call data has stored items: one more, unless there is nothing to
store. -/
def deposit (items : List Item) (entries : List (String × Value)) (keys : DataKeys) :
    List (String × Value) :=
  if Item.accepted items = [] then entries
  else
    (keys.contextKey,
      .map ((Item.accepted items).foldl (put keys) (storedIn entries keys.contextKey))) :: entries

variable {keys : DataKeys} {ctx next : Context} {items : List Item}

/-- What can be read is what the entries hold under the key. -/
theorem storedIn_of_read {data : DataMap} (h : read keys ctx = .ok data) :
    storedIn ctx.entries keys.contextKey = data := by
  have hvalue : ctx.entries.lookup keys.contextKey = ctx.value? keys.contextKey := rfl
  rw [storedIn, hvalue]
  rw [read, if_neg (key_ne_empty_of_read h)] at h
  -- something else than a map could not have been read
  cases hv : ctx.value? keys.contextKey with
  | none =>
    rw [hv] at h
    exact Except.ok.inj h
  | some v =>
    rw [hv] at h
    cases v with
    | map stored => exact Except.ok.inj h
    | _ => cases h

/-- A write that succeeds makes one entry, or none if there is nothing to store. -/
theorem write_entries (h : write keys ctx items = .ok next) :
    next.entries = deposit items ctx.entries keys ∧ next.token? = ctx.token? := by
  obtain ⟨data, hread, _, rfl⟩ := write_eq_ok_iff.mp h
  rw [deposit, storedIn_of_read hread]
  cases Item.accepted items with
  | nil => exact ⟨rfl, rfl⟩
  | cons first rest => exact ⟨rfl, rfl⟩

end Buckets

namespace Tree

variable {ctx next : Context} {items : List Item}

/-- The sites of a tree make their entries one after the other. -/
theorem writeSites_entries {sites : List Site} (h : writeSites items ctx sites = .ok next) :
    next.entries = (sites.map Site.keys).foldl (Buckets.deposit items) ctx.entries ∧
      next.token? = ctx.token? := by
  induction sites generalizing ctx with
  | nil =>
    obtain rfl := Except.ok.inj h
    exact ⟨rfl, rfl⟩
  | cons s rest ih =>
    cases hs : Buckets.write s.keys ctx items with
    | error e =>
      rw [writeSites_cons_error hs] at h
      cases h
    | ok mid =>
      rw [writeSites_cons_ok hs] at h
      obtain ⟨hentries, htoken⟩ := ih h
      obtain ⟨hmid, hmidToken⟩ := Buckets.write_entries hs
      rw [hmid] at hentries
      exact ⟨hentries, htoken.trans hmidToken⟩

/-- **A write is a list of entries.** Each provider of per-call data in the tree adds its own, over those
that the ones before it have added. -/
theorem write_entries {t : Tree} (h : t.provider.write ctx items = .ok next) :
    next.entries = t.leaves.foldl (Buckets.deposit items) ctx.entries ∧
      next.token? = ctx.token? := by
  by_cases hfixed : t.AllFixed
  · rw [write_of_allFixed hfixed] at h
    cases h
  · rw [write_of_not_allFixed hfixed] at h
    exact writeSites_entries h

end Tree

/-! ## Stamps that have been given out

An issuer counts. Whether a stamp has been given out is a comparison with the count. -/

namespace Issuer

/-- The issuer does not give out the stamp any more. -/
def Spent (i : Issuer) (stamp : Stamp) : Prop := stamp.issuer = i.id → stamp.serial < i.issued

theorem not_spent_stamp (i : Issuer) : ¬ i.Spent i.stamp := fun h => Nat.lt_irrefl _ (h rfl)

theorem spent_stamp_next (i : Issuer) : i.next.Spent i.stamp := fun _ => Nat.lt_succ_self _

theorem Spent.next {i : Issuer} {stamp : Stamp} (h : i.Spent stamp) : i.next.Spent stamp :=
  fun hid => Nat.lt_succ_of_lt (h hid)

end Issuer

/-! ## Histories

Contexts and tokens are named by their places, which never change, because both lists only grow. A step that
names something that is not there is no step. -/

/-- The contexts and the tokens so far, in the order in which they were made. -/
structure History where
  contexts : List Context
  tokens : List CancelToken
  cancellations : Cancellations
  issuer : Issuer

namespace History

def start : History := ⟨[], [], .none, ⟨0, 0⟩⟩

/-- One step, on contexts and tokens that are named by their places in the history. -/
inductive Step where
  | root
  | bind (source : Nat) (key : String) (value : Value)
  | cancellable (source : Nat)
  | write (source : Nat) (tree : Tree) (items : List Item)
  | cancel (token : Nat)

def add (h : History) (ctx : Context) : History := { h with contexts := h.contexts ++ [ctx] }

/-- A context joins the history together with a token of its own, which takes the next stamp. -/
def addCancellable (h : History) (ctx : Context) : History :=
  { h with
    contexts := h.contexts ++ [ctx.cancellable h.issuer.stamp]
    tokens := h.tokens ++ [ctx.childToken h.issuer.stamp]
    issuer := h.issuer.next }

def cancel (h : History) (token : CancelToken) : History :=
  { h with cancellations := h.cancellations.fire token }

/-- What a step makes of a history, if it names what is there and, as a write, succeeds. -/
def step (h : History) : Step → Option History
  | .root => some (h.add .root)
  | .bind source key value => h.contexts[source]?.map fun ctx => h.add (ctx.bind key value)
  | .cancellable source => h.contexts[source]?.map h.addCancellable
  | .write source tree items =>
    h.contexts[source]?.bind fun ctx => (tree.provider.write ctx items).toOption.map h.add
  | .cancel token => h.tokens[token]?.map h.cancel

/-- Steps one after the other. A history that makes a wrong step is none. -/
def run (h : History) (steps : List Step) : Option History := steps.foldlM step h

/-- What holds at the start, and is kept by each step, holds of every history and its steps. -/
theorem run_induct {P : List Step → History → Prop} (hstart : P [] start)
    (hstep : ∀ done h s next, P done h → h.step s = some next → P (done ++ [s]) next)
    {steps : List Step} {h : History} (hrun : start.run steps = some h) : P steps h := by
  -- from the last step, because the property is about all steps so far
  induction steps using List.reverseRecOn generalizing h with
  | nil =>
    obtain rfl := Option.some.inj hrun
    exact hstart
  | append_singleton done s ih =>
    rw [run, List.foldlM_append] at hrun
    obtain ⟨mid, hdone, hlast⟩ := Option.bind_eq_some_iff.mp hrun
    obtain ⟨last, hs, hpure⟩ := Option.bind_eq_some_iff.mp hlast
    obtain rfl := Option.some.inj hpure
    exact hstep done mid s last (ih hdone) hs

/-- A write that is a step has succeeded. -/
theorem step_write {h next : History} {source : Nat} {tree : Tree} {items : List Item}
    (hs : h.step (.write source tree items) = some next) :
    ∃ ctx written, h.contexts[source]? = some ctx ∧ tree.provider.write ctx items = .ok written ∧
      next = h.add written := by
  obtain ⟨ctx, hc, hwrite⟩ := Option.bind_eq_some_iff.mp hs
  obtain ⟨written, hok, rfl⟩ := Option.map_eq_some_iff.mp hwrite
  refine ⟨ctx, written, hc, ?_, rfl⟩
  cases htree : tree.provider.write ctx items with
  | error e =>
    rw [htree] at hok
    cases hok
  | ok next =>
    rw [htree] at hok
    rw [Option.some.inj hok]

/-- A step adds a context below tokens that are there, or one below a new token, or it fires a token. -/
theorem step_cases {h next : History} {s : Step} (hs : h.step s = some next) :
    (∃ ctx, next = h.add ctx ∧
      ∀ stamp ∈ ctx.lineage, ∃ source ∈ h.contexts, stamp ∈ source.lineage) ∨
    (∃ ctx ∈ h.contexts, next = h.addCancellable ctx) ∨
    ∃ n token, s = .cancel n ∧ h.tokens[n]? = some token ∧ next = h.cancel token := by
  -- a write keeps the token, as a binding does, so both are of the first kind
  cases s with
  | root =>
    obtain rfl := Option.some.inj hs
    exact .inl ⟨_, rfl, nofun⟩
  | bind source key value =>
    obtain ⟨ctx, hc, rfl⟩ := Option.map_eq_some_iff.mp hs
    exact .inl ⟨_, rfl, fun stamp hmem => ⟨ctx, List.mem_of_getElem? hc, hmem⟩⟩
  | cancellable source =>
    obtain ⟨ctx, hc, rfl⟩ := Option.map_eq_some_iff.mp hs
    exact .inr (.inl ⟨ctx, List.mem_of_getElem? hc, rfl⟩)
  | write source tree items =>
    obtain ⟨ctx, written, hc, hwrite, rfl⟩ := step_write hs
    refine .inl ⟨_, rfl, fun stamp hmem => ⟨ctx, List.mem_of_getElem? hc, ?_⟩⟩
    rw [Context.lineage, (Tree.write_entries hwrite).2] at hmem
    exact hmem
  | cancel n =>
    obtain ⟨token, htoken, rfl⟩ := Option.map_eq_some_iff.mp hs
    exact .inr (.inr ⟨n, token, rfl, htoken, rfl⟩)

/-! ## Stamps in use

Two tokens would be confused if they had one stamp. That cannot happen: a stamp is in use only if it has been
given out, and the next token gets one that has not. -/

/-- Every stamp that a history uses has been given out. -/
structure Issued (h : History) : Prop where
  contexts : ∀ ctx ∈ h.contexts, ∀ stamp ∈ ctx.lineage, h.issuer.Spent stamp
  tokens : ∀ token ∈ h.tokens, h.issuer.Spent token.stamp
  fired : ∀ stamp ∈ h.cancellations.fired, h.issuer.Spent stamp

/-- **One step.** New lineages consist of old stamps and perhaps the next one, which is spent by the step that
uses it. -/
theorem Issued.step {h next : History} {s : Step} (hi : Issued h) (hs : h.step s = some next) :
    Issued next := by
  -- a lineage is made of stamps in use, but for the one of a new token
  rcases step_cases hs with ⟨ctx, rfl, hold⟩ | ⟨ctx, hmem, rfl⟩ | ⟨n, token, _, htoken, rfl⟩
  · refine ⟨?_, hi.tokens, hi.fired⟩
    refine List.forall_mem_append.mpr ⟨hi.contexts, List.forall_mem_singleton.mpr fun stamp hstamp => ?_⟩
    obtain ⟨source, hsource, hin⟩ := hold stamp hstamp
    exact hi.contexts source hsource stamp hin
  · refine ⟨?_, ?_, fun stamp hstamp => (hi.fired stamp hstamp).next⟩
    · refine List.forall_mem_append.mpr ⟨fun c hc stamp hstamp => (hi.contexts c hc stamp hstamp).next,
        List.forall_mem_singleton.mpr ?_⟩
      rw [Context.lineage_cancellable]
      exact List.forall_mem_cons.mpr
        ⟨h.issuer.spent_stamp_next, fun stamp hstamp => (hi.contexts ctx hmem stamp hstamp).next⟩
    · exact List.forall_mem_append.mpr ⟨fun t ht => (hi.tokens t ht).next,
        List.forall_mem_singleton.mpr h.issuer.spent_stamp_next⟩
  · exact ⟨hi.contexts, hi.tokens,
      List.forall_mem_cons.mpr ⟨hi.tokens token (List.mem_of_getElem? htoken), hi.fired⟩⟩

/-- **Stamps are given out before they are used**, in every history. -/
theorem Issued.of_run {steps : List Step} {h : History} (hrun : start.run steps = some h) : Issued h :=
  run_induct (P := fun _ => Issued) ⟨nofun, nofun, nofun⟩ (fun _ _ _ _ hi hs => hi.step hs) hrun

/-! ## Paths

A path forgets the other branches of the history. The tokens on it are numbered through the whole history, as a
token can be cancelled from anywhere. -/

/-- How a context was derived from the one before it. -/
inductive Link where
  | bind (key : String) (value : Value)
  /-- The context was made with this token; tokens are numbered through the whole history. -/
  | cancellable (token : Nat)
  | write (tree : Tree) (items : List Item)

/-- The derivations that lead from a root to a context, the newest first. -/
abbrev Path : Type := List Link

namespace Path

/-- What has been written on a path, the newest first. -/
def writes : Path → List (String × Value)
  | [] => []
  | .bind key value :: rest => (key, value) :: writes rest
  | .cancellable _ :: rest => writes rest
  | .write tree items :: rest => tree.leaves.foldl (Buckets.deposit items) (writes rest)

/-- The tokens that were made on a path, the newest first. -/
def tokens : Path → List Nat
  | [] => []
  | .cancellable token :: rest => token :: tokens rest
  | _ :: rest => tokens rest

end Path

/-- The paths of the contexts so far, and the number of tokens. -/
structure Trace where
  paths : List Path
  issued : Nat

namespace Trace

/-- The path of a context. A place without a context has none. -/
def pathOf (t : Trace) (source : Nat) : Path := t.paths.getD source []

/-- What a step adds to the paths. A write is put down with all that it was asked to store, since only writes
that succeed are steps. -/
def step (t : Trace) : Step → Trace
  | .root => { t with paths := t.paths ++ [[]] }
  | .bind source key value => { t with paths := t.paths ++ [.bind key value :: t.pathOf source] }
  | .cancellable source => ⟨t.paths ++ [.cancellable t.issued :: t.pathOf source], t.issued + 1⟩
  | .write source tree items => { t with paths := t.paths ++ [.write tree items :: t.pathOf source] }
  | .cancel _ => t

/-- The paths that a list of steps makes. -/
def ofSteps (steps : List Step) : Trace := steps.foldl step ⟨[], 0⟩

theorem ofSteps_concat (steps : List Step) (s : Step) :
    ofSteps (steps ++ [s]) = (ofSteps steps).step s := by
  rw [ofSteps, List.foldl_append]
  rfl

end Trace

/-! ## The invariant

Running the steps makes contexts, and reading them makes paths. `Follows` relates the two, and each way in which
a step changes a history has its own lemma. -/

/-- The stamp of the token with this number. -/
def stampOf (n : Nat) : Stamp := ⟨0, n⟩

/-- The context holds what the path has written, below the tokens of the path. -/
structure Fits (path : Path) (ctx : Context) : Prop where
  entries : ctx.entries = path.writes
  lineage : ctx.lineage = path.tokens.map stampOf

/-- The history is what these steps have made. -/
structure Follows (done : List Step) (h : History) : Prop where
  contexts : List.Forall₂ Fits (Trace.ofSteps done).paths h.contexts
  tokens : h.tokens.map CancelToken.stamp = (List.range (Trace.ofSteps done).issued).map stampOf
  issuer : h.issuer = ⟨0, (Trace.ofSteps done).issued⟩
  fired : ∀ n, stampOf n ∈ h.cancellations.fired ↔ .cancel n ∈ done

/-- The empty history follows no steps. -/
theorem Follows.start : Follows [] start where
  contexts := .nil
  tokens := rfl
  issuer := rfl
  fired n := by simp [History.start, Cancellations.none]

namespace Follows

variable {done : List Step} {h : History} {ctx : Context}

/-- Each context has a path at its place, and fits it. -/
theorem fits (hf : Follows done h) {c : Nat} (hc : h.contexts[c]? = some ctx) :
    ∃ path, (Trace.ofSteps done).paths[c]? = some path ∧ Fits path ctx := by
  have hrel := rel_getElem? hf.contexts c
  rw [hc] at hrel
  -- related lists have the same places, so there is a path where there is a context
  generalize (Trace.ofSteps done).paths[c]? = path? at hrel ⊢
  cases hrel with
  | some hfits => exact ⟨_, rfl, hfits⟩

/-- So a step that names a context by its place extends the right path. -/
theorem fits_pathOf (hf : Follows done h) {c : Nat} (hc : h.contexts[c]? = some ctx) :
    Fits ((Trace.ofSteps done).pathOf c) ctx := by
  obtain ⟨path, hpath, hfits⟩ := hf.fits hc
  rw [Trace.pathOf, List.getD_eq_getElem?_getD, hpath]
  exact hfits

/-- A step that cancels nothing leaves the record of what has been cancelled as it is. -/
theorem fired_concat (hf : Follows done h) {s : Step} (hs : ∀ n, s ≠ .cancel n) (n : Nat) :
    stampOf n ∈ h.cancellations.fired ↔ .cancel n ∈ done ++ [s] := by
  rw [hf.fired, List.mem_append, List.mem_singleton]
  exact ⟨.inl, fun hmem => hmem.resolve_right fun heq => hs n heq.symm⟩

/-- A context that fits its path joins the history. -/
theorem add (hf : Follows done h) {s : Step} {path : Path} (hs : ∀ n, s ≠ .cancel n)
    (htrace : (Trace.ofSteps done).step s
      = { Trace.ofSteps done with paths := (Trace.ofSteps done).paths ++ [path] })
    (hfits : Fits path ctx) : Follows (done ++ [s]) (h.add ctx) where
  contexts := by
    rw [Trace.ofSteps_concat, htrace]
    exact List.rel_append hf.contexts (.cons hfits .nil)
  tokens := by
    rw [Trace.ofSteps_concat, htrace]
    exact hf.tokens
  issuer := by
    rw [Trace.ofSteps_concat, htrace]
    exact hf.issuer
  fired := hf.fired_concat hs

/-- A context with a token of its own. Its path names the token by its number, and the token bears the stamp
with that number. -/
theorem addCancellable (hf : Follows done h) {source : Nat} (hc : h.contexts[source]? = some ctx) :
    Follows (done ++ [.cancellable source]) (h.addCancellable ctx) := by
  have hfits := hf.fits_pathOf hc
  have hstamp : h.issuer.stamp = stampOf (Trace.ofSteps done).issued := by
    rw [hf.issuer]
    rfl
  constructor
  · rw [Trace.ofSteps_concat]
    refine List.rel_append hf.contexts (.cons ⟨hfits.entries, ?_⟩ .nil)
    -- the new token goes on top of the tokens of the source's path
    rw [Context.lineage_cancellable, hstamp, hfits.lineage]
    rfl
  · rw [Trace.ofSteps_concat, History.addCancellable, List.map_append, hf.tokens]
    show _ = (List.range ((Trace.ofSteps done).issued + 1)).map stampOf
    rw [List.range_succ, List.map_append, List.map_singleton, List.map_singleton, Context.childToken,
      hstamp]
  · rw [Trace.ofSteps_concat, History.addCancellable, hf.issuer]
    rfl
  · exact hf.fired_concat nofun

/-- The token with the number `n` carries the stamp for it. -/
theorem stamp_eq (hf : Follows done h) {n : Nat} {token : CancelToken}
    (hn : h.tokens[n]? = some token) : token.stamp = stampOf n := by
  have hmap : (h.tokens.map CancelToken.stamp)[n]? = some token.stamp := by
    rw [List.getElem?_map, hn]
    rfl
  rw [hf.tokens, List.getElem?_map] at hmap
  -- the token with the number stands at that place of the list
  obtain ⟨m, hm, hstamp⟩ := Option.map_eq_some_iff.mp hmap
  obtain ⟨_, rfl⟩ := List.getElem?_eq_some_iff.mp hm
  rw [← hstamp, List.getElem_range]

/-- A token is cancelled. No path changes, since paths are about how contexts were made. -/
theorem cancel (hf : Follows done h) {n : Nat} {token : CancelToken}
    (hn : h.tokens[n]? = some token) : Follows (done ++ [.cancel n]) (h.cancel token) := by
  have htrace : Trace.ofSteps (done ++ [.cancel n]) = Trace.ofSteps done := Trace.ofSteps_concat _ _
  refine ⟨htrace ▸ hf.contexts, htrace ▸ hf.tokens, htrace ▸ hf.issuer, fun m => ?_⟩
  have hstamp : stampOf m = stampOf n ↔ m = n := by simp [stampOf]
  show stampOf m ∈ token.stamp :: h.cancellations.fired ↔ _
  rw [hf.stamp_eq hn, List.mem_cons, hf.fired, hstamp, List.mem_append, List.mem_singleton,
    Step.cancel.injEq, or_comm]

/-- One step keeps the invariant; there is one case for each kind of step. -/
theorem step (hf : Follows done h) {s : Step} {next : History} (hs : h.step s = some next) :
    Follows (done ++ [s]) next := by
  cases s with
  | root =>
    obtain rfl := Option.some.inj hs
    exact hf.add nofun rfl ⟨rfl, rfl⟩
  | bind source key value =>
    obtain ⟨ctx, hc, rfl⟩ := Option.map_eq_some_iff.mp hs
    have hfits := hf.fits_pathOf hc
    refine hf.add nofun rfl ⟨?_, hfits.lineage⟩
    rw [Context.bind, hfits.entries]
    rfl
  | cancellable source =>
    obtain ⟨ctx, hc, rfl⟩ := Option.map_eq_some_iff.mp hs
    exact hf.addCancellable hc
  | write source tree items =>
    obtain ⟨ctx, written, hc, hwrite, rfl⟩ := step_write hs
    have hfits := hf.fits_pathOf hc
    obtain ⟨hentries, htoken⟩ := Tree.write_entries hwrite
    refine hf.add nofun rfl ⟨?_, ?_⟩
    · rw [hentries, hfits.entries]
      rfl
    · rw [Context.lineage, htoken]
      exact hfits.lineage
  | cancel n =>
    obtain ⟨token, hn, rfl⟩ := Option.map_eq_some_iff.mp hs
    exact hf.cancel hn

/-- **Every history follows its steps.** -/
theorem of_run {steps : List Step} (hrun : History.start.run steps = some h) : Follows steps h :=
  run_induct .start (fun _ _ _ _ hf hs => hf.step hs) hrun

end Follows

theorem Fits.value?_eq {path : Path} {ctx : Context} (hfits : Fits path ctx) (k : String) :
    ctx.value? k = path.writes.lookup k := by
  rw [Context.value?, hfits.entries]

/-- A context is cancelled exactly if a token of its path has been. -/
theorem Follows.isCancelled_iff {done : List Step} {h : History} (hf : Follows done h) {path : Path}
    {ctx : Context} (hfits : Fits path ctx) :
    ctx.isCancelled h.cancellations = true ↔ ∃ n ∈ path.tokens, .cancel n ∈ done := by
  rw [Context.isCancelled_iff, hfits.lineage]
  simp [hf.fired]

/-! ## What a step does to the contexts that are there

Nothing, but that it may cancel some. -/

section Frame

variable {h next : History} {s : Step} {ctx : Context}

/-- A context stays at its place, with its entries and its token. -/
theorem getElem?_contexts_step (hs : h.step s = some next) {c : Nat} (hc : h.contexts[c]? = some ctx) :
    next.contexts[c]? = some ctx := by
  obtain ⟨hlt, _⟩ := List.getElem?_eq_some_iff.mp hc
  have happend : ∀ more : Context, (h.contexts ++ [more])[c]? = some ctx := fun more => by
    rw [List.getElem?_append_left hlt, hc]
  rcases step_cases hs with ⟨_, rfl, _⟩ | ⟨_, _, rfl⟩ | ⟨_, _, _, _, rfl⟩
  · exact happend _
  · exact happend _
  · exact hc

/-- Only a cancellation fires a token. -/
theorem cancellations_step (hs : h.step s = some next) (hkeep : ∀ n, s ≠ .cancel n) :
    next.cancellations = h.cancellations := by
  rcases step_cases hs with ⟨_, rfl, _⟩ | ⟨_, _, rfl⟩ | ⟨n, _, heq, _, _⟩
  · rfl
  · rfl
  · exact absurd heq (hkeep n)

/-- Nothing takes a cancellation back. -/
theorem isCancelled_step (hs : h.step s = some next) (hc : ctx.isCancelled h.cancellations = true) :
    ctx.isCancelled next.cancellations = true := by
  rcases step_cases hs with ⟨_, rfl, _⟩ | ⟨_, _, rfl⟩ | ⟨_, token, _, _, rfl⟩
  · exact hc
  · exact hc
  · obtain ⟨stamp, hmem, hfired⟩ := Context.isCancelled_iff.mp hc
    exact Context.isCancelled_iff.mpr ⟨stamp, hmem, List.mem_cons_of_mem _ hfired⟩

end Frame

/-- **Every history.** Each context has its path. It holds under a key what was last written there on the
path, and it is cancelled exactly if a token that was made on the path has been cancelled, be it before or
after the context was derived. A further step leaves every context as it is, with all its values; only a
cancellation can change which contexts are cancelled, and it takes none back. -/
theorem run_follows_paths (steps : List Step) (h : History) (hrun : start.run steps = some h) :
    h.contexts.length = (Trace.ofSteps steps).paths.length ∧
    (∀ (c : Nat) (ctx : Context) (path : Path), h.contexts[c]? = some ctx →
      (Trace.ofSteps steps).paths[c]? = some path →
      (∀ k, ctx.value? k = path.writes.lookup k) ∧
      (ctx.isCancelled h.cancellations = true ↔ ∃ n ∈ path.tokens, .cancel n ∈ steps)) ∧
    (∀ s next, h.step s = some next → ∀ (c : Nat) (ctx : Context), h.contexts[c]? = some ctx →
      next.contexts[c]? = some ctx ∧
      ((∀ n, s ≠ .cancel n) →
        ctx.isCancelled next.cancellations = ctx.isCancelled h.cancellations) ∧
      (ctx.isCancelled h.cancellations = true → ctx.isCancelled next.cancellations = true)) := by
  have hf : Follows steps h := .of_run hrun
  refine ⟨hf.contexts.length_eq.symm, fun c ctx path hc hpath => ?_, fun s next hs c ctx hc => ?_⟩
  · obtain ⟨path', hpath', hfits⟩ := hf.fits hc
    obtain rfl := Option.some.inj (hpath.symm.trans hpath')
    exact ⟨hfits.value?_eq, hf.isCancelled_iff hfits⟩
  · refine ⟨getElem?_contexts_step hs hc, fun hkeep => ?_, isCancelled_step hs⟩
    rw [cancellations_step hs hkeep]

/-- Two branches from one context. In the first a provider writes, and the token above it is cancelled
before the last derivation. -/
def branching : List Step :=
  [.root, .bind 0 "k" (.bool false), .cancellable 1, .write 2 (.buckets .standard) [.map ∅], .cancel 0,
    .cancellable 3, .bind 1 "k" (.bool true)]

/-- The end of the first branch still holds the old value and is born cancelled; the second is not cancelled
and holds the new value. -/
theorem run_follows_paths_branching :
    ∃ h first second, start.run branching = some h ∧
      h.contexts[4]? = some first ∧ h.contexts[5]? = some second ∧
      first.value? "k" = some (.bool false) ∧ first.isCancelled h.cancellations = true ∧
      second.value? "k" = some (.bool true) ∧ second.isCancelled h.cancellations = false := by
  obtain ⟨h, first, second, hrun, hfirst, hsecond⟩ : ∃ h first second, start.run branching = some h ∧
      h.contexts[4]? = some first ∧ h.contexts[5]? = some second := ⟨_, _, _, rfl, rfl, rfl⟩
  have hpaths := (run_follows_paths branching h hrun).2.1
  have h₁ := hpaths 4 first [.cancellable 1, .write (.buckets .standard) [.map ∅], .cancellable 0,
    .bind "k" (.bool false)] hfirst rfl
  have h₂ := hpaths 5 second [.bind "k" (.bool true), .bind "k" (.bool false)] hsecond rfl
  refine ⟨h, first, second, hrun, hfirst, hsecond, h₁.1 "k", ?_, h₂.1 "k", ?_⟩
  · exact h₁.2.mpr ⟨0, by simp [Path.tokens], by simp [branching]⟩
  · rw [Bool.eq_false_iff, ne_eq, h₂.2]
    simp [Path.tokens]

end History

end ScriptHost
