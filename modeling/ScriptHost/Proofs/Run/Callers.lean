import Mathlib.Logic.Function.Basic
import ScriptHost.Proofs.Context.History
import ScriptHost.Proofs.Provider.Disclosure
import ScriptHost.Proofs.Provider.TokenBlind
import ScriptHost.Proofs.Run.Enrichment

/-!
# One program, many callers

Callers share a program, a base context and the record of what has been cancelled. Each derives contexts of
its own, writes and reads through the program, and cancels the tokens that it has made, in any order with
the calls of the others. What it is answered is what it would be answered alone.

Tokens are stamped by one issuer for all callers, so a token has another stamp in the shared run than in the
lone one. The proof runs both side by side and keeps a list of the stamps that stand for each other
(`Pairing`).

* **`History.Twin`**: the relation between what one caller has in the two runs. A call of the caller keeps it
  and is answered alike in both (`Twin.perform`); a call of another at most makes a token (`Twin.issue`) or
  fires one that this caller does not have (`Twin.fire`).
* **`World.answers_alone`**: the answers to a caller are those of the run with its calls only.
-/

namespace ScriptHost

/-! ## Errors with another token

A failed write may hand contexts to the caller. In the two runs they differ in their tokens, and in nothing
else. -/

namespace ProviderFault

/-- The context that an error offers gets the other token. -/
theorem committed?_withToken (token? : Option CancelToken) (e : ProviderFault) :
    (e.withToken token?).committed? = e.committed?.map (·.withToken token?) := by
  cases e <;> rfl

/-- So do the contexts behind it, and there are as many of them. -/
theorem disclosed_withToken (token? : Option CancelToken) (e : ProviderFault) :
    (e.withToken token?).disclosed = e.disclosed.map (·.withToken token?) := by
  induction e with
  | failed position source ih =>
    rw [withToken, disclosed_failed, disclosed_failed, ih]
  | _ => rfl

end ProviderFault

namespace EvalFault

/-- The same error, with another token on the contexts that it carries. -/
def withToken (token? : Option CancelToken) : EvalFault → EvalFault
  | .enrichment e => .enrichment (e.withToken token?)
  | .inputData e => .inputData (e.withToken token?)
  | e => e

/-- The same once evaluation has wrapped the error. -/
theorem disclosed_enrichment_withToken (token? : Option CancelToken) (e : ProviderFault) :
    (enrichment (e.withToken token?)).disclosed
      = (enrichment e).disclosed.map (·.withToken token?) := by
  show (e.withToken token?).committed?.toList ++ (e.withToken token?).disclosed
    = (e.committed?.toList ++ e.disclosed).map (·.withToken token?)
  rw [ProviderFault.committed?_withToken, ProviderFault.disclosed_withToken, List.map_append,
    Option.toList_map]

end EvalFault

/-! ## Calls

A call names contexts and tokens by their places, as a program does by its variables. Places do not depend on
what other callers do, so the same calls can be made in another run. -/

/-- What a caller can ask for. It names contexts and tokens by their places among its own; its first context
is the one that all callers share. -/
inductive Call where
  | bind (source : Nat) (key : String) (value : Value)
  | cancellable (source : Nat)
  | prepare (source : Nat) (items : List Item)
  | load (source : Nat)
  | check (source : Nat)
  | cancel (token : Nat)

/-- What a caller gets to see. -/
inductive Answer where
  /-- A new context: its entries, and whether it is cancelled. -/
  | context (entries : List (String × Value)) (cancelled : Bool)
  | data (data : DataMap)
  | done
  | failed (e : EvalFault)
  /-- The caller has no such context or token. -/
  | unknown

namespace History

/-- Hands contexts to the caller without a word. -/
def addAll (h : History) (contexts : List Context) : History :=
  { h with contexts := h.contexts ++ contexts }

/-- Hands a context to the caller. -/
def give (h : History) (ctx : Context) : History × Answer :=
  (h.add ctx, .context ctx.entries (ctx.isCancelled h.cancellations))

def onContext (h : History) (source : Nat) (f : Context → History × Answer) : History × Answer :=
  match h.contexts[source]? with
  | none => (h, .unknown)
  | some ctx => f ctx

variable {β : Type} (p : Program β Provider)

def prepare (h : History) (ctx : Context) (items : List Item) : History × Answer :=
  match p.prepare ctx items with
  | .ok next => h.give next
  -- the caller can go on with what the error carries; which tokens are on it does not show
  | .error e => (h.addAll e.disclosed, .failed (e.withToken none))

def load (h : History) (ctx : Context) : History × Answer :=
  match p.input ctx with
  | .ok data => (h, .data data)
  | .error e => (h, .failed e)

def check (h : History) (ctx : Context) : History × Answer :=
  match requireActive ctx h.cancellations with
  | .ok () => (h, .done)
  | .error e => (h, .failed e)

/-- One call of a caller, on what it has. -/
def perform (h : History) : Call → History × Answer
  | .bind source key value => h.onContext source fun ctx => h.give (ctx.bind key value)
  | .cancellable source =>
    h.onContext source fun ctx =>
      (h.addCancellable ctx,
        .context ctx.entries ((ctx.cancellable h.issuer.stamp).isCancelled h.cancellations))
  | .prepare source items => h.onContext source fun ctx => h.prepare p ctx items
  | .load source => h.onContext source fun ctx => h.load p ctx
  | .check source => h.onContext source fun ctx => h.check ctx
  | .cancel token =>
    match h.tokens[token]? with
    | none => (h, .unknown)
    | some t => (h.cancel t, .done)

end History

/-! ## Worlds

Each caller has contexts and tokens of its own. The record of what has been cancelled and the issuer of stamps
belong to all of them, and through these two they could disturb each other. -/

/-- What the callers have, and what they share. -/
structure World (ι : Type) where
  contexts : ι → List Context
  tokens : ι → List CancelToken
  cancellations : Cancellations
  issuer : Issuer

namespace World

variable {ι β : Type} [DecidableEq ι]

/-- Nobody has called yet: each caller has the base context only. -/
def start (base : Context) (cancellations : Cancellations) (issuer : Issuer) : World ι :=
  ⟨fun _ => [base], fun _ => [], cancellations, issuer⟩

/-- What one caller can reach. -/
def view (w : World ι) (i : ι) : History := ⟨w.contexts i, w.tokens i, w.cancellations, w.issuer⟩

/-- One caller has something else, and what is shared has changed with it. -/
def put (w : World ι) (i : ι) (h : History) : World ι :=
  ⟨Function.update w.contexts i h.contexts, Function.update w.tokens i h.tokens, h.cancellations,
    h.issuer⟩

/-- The world after a call, and the answer to it. -/
def turn (p : Program β Provider) (w : World ι) (i : ι) (call : Call) : World ι × Answer :=
  (w.put i ((w.view i).perform p call).1, ((w.view i).perform p call).2)

/-- The answers to calls in this order, each with its caller. -/
def answers (p : Program β Provider) : World ι → List (ι × Call) → List (ι × Answer)
  | _, [] => []
  | w, (i, call) :: rest => (i, (w.turn p i call).2) :: answers p (w.turn p i call).1 rest

/-- The answers to one caller. -/
def heard (i : ι) (answers : List (ι × Answer)) : List Answer :=
  (answers.filter fun a => a.1 = i).map Prod.snd

theorem heard_cons_self (i : ι) (a : Answer) (rest : List (ι × Answer)) :
    heard i ((i, a) :: rest) = a :: heard i rest := by
  simp [heard]

theorem heard_cons_of_ne {i j : ι} (hji : j ≠ i) (a : Answer) (rest : List (ι × Answer)) :
    heard i ((j, a) :: rest) = heard i rest := by
  simp [heard, hji]

@[simp] theorem view_put_self (w : World ι) (i : ι) (h : History) : (w.put i h).view i = h := by
  simp [view, put]

theorem view_put_of_ne (w : World ι) {i j : ι} (hij : i ≠ j) (h : History) :
    (w.put j h).view i = { w.view i with cancellations := h.cancellations, issuer := h.issuer } := by
  simp [view, put, hij]

end World

/-! ## The same caller in two runs

Stamps differ between the runs, because the issuer serves the other callers as well in the first. All else is
the same, so the relation is equality but for a list of pairs of stamps. -/

/-- Stamps of one run, each with the stamp that stands for it in another. -/
abbrev Pairing : Type := List (Stamp × Stamp)

/-- The contexts differ in their tokens only, and these stand for each other. -/
structure Context.Twin (pairs : Pairing) (ctx ctx' : Context) : Prop where
  entries : ctx'.entries = ctx.entries
  lineage : List.Forall₂ (fun s s' => (s, s') ∈ pairs) ctx.lineage ctx'.lineage

namespace History

/-- What a caller has in one run, and what it has in another. -/
structure Twin (pairs : Pairing) (h h' : History) : Prop where
  contexts : List.Forall₂ (Context.Twin pairs) h.contexts h'.contexts
  tokens : List.Forall₂ (fun t t' => (t.stamp, t'.stamp) ∈ pairs) h.tokens h'.tokens
  distinct : ∀ r ∈ pairs, ∀ q ∈ pairs, r.1 = q.1 ↔ r.2 = q.2
  fired : ∀ r ∈ pairs, r.1 ∈ h.cancellations.fired ↔ r.2 ∈ h'.cancellations.fired
  spent : ∀ r ∈ pairs, h.issuer.Spent r.1 ∧ h'.issuer.Spent r.2
  spentLeft : ∀ stamp ∈ h.cancellations.fired, h.issuer.Spent stamp
  spentRight : ∀ stamp ∈ h'.cancellations.fired, h'.issuer.Spent stamp

/-- Two results of a call: the same answer, and twins again. A new pair, if any, has the next stamp of the
first run. -/
def Alike (pairs : Pairing) (h : History) (r r' : History × Answer) : Prop :=
  r.2 = r'.2 ∧
    ∃ pairs', Twin pairs' r.1 r'.1 ∧ ∀ q ∈ pairs', q ∈ pairs ∨ q.1 = h.issuer.stamp

end History

namespace Context.Twin

variable {pairs : Pairing} {ctx ctx' : Context}

theorem eq_withToken (ht : ctx.Twin pairs ctx') : ctx' = ctx.withToken ctx'.token? := by
  cases ctx'
  rw [withToken, ← ht.entries]

/-- Entries may change as long as the tokens stay. -/
theorem of_lineage (ht : ctx.Twin pairs ctx') {c c' : Context} (hentries : c'.entries = c.entries)
    (hc : c.lineage = ctx.lineage) (hc' : c'.lineage = ctx'.lineage) : c.Twin pairs c' :=
  ⟨hentries, by rw [hc, hc']; exact ht.lineage⟩

theorem withToken (ht : ctx.Twin pairs ctx') (c : Context) :
    (c.withToken ctx.token?).Twin pairs (c.withToken ctx'.token?) :=
  ht.of_lineage rfl rfl rfl

theorem mono (ht : ctx.Twin pairs ctx') {pairs' : Pairing} (hsub : pairs ⊆ pairs') :
    ctx.Twin pairs' ctx' :=
  ⟨ht.entries, ht.lineage.imp fun _ _ hmem => hsub hmem⟩

theorem cancellable (ht : ctx.Twin pairs ctx') (stamp stamp' : Stamp) :
    (ctx.cancellable stamp).Twin ((stamp, stamp') :: pairs) (ctx'.cancellable stamp') :=
  ⟨ht.entries, .cons List.mem_cons_self (ht.mono (List.subset_cons_self _ _)).lineage⟩

end Context.Twin

namespace History

variable {pairs : Pairing} {h h' : History} {ctx ctx' : Context} {β : Type} {p : Program β Provider}

/-- A write that succeeds hands its context to the caller. -/
theorem prepare_of_write_ok {items : List Item} {next : Context}
    (hwrite : p.provider.write ctx items = .ok next) : h.prepare p ctx items = h.give next := by
  simp only [History.prepare, Program.prepare, enrich, hwrite, Except.mapError]

/-- A write that fails hands over what its error discloses. -/
theorem prepare_of_write_error {items : List Item} {e : ProviderFault}
    (hwrite : p.provider.write ctx items = .error e) :
    h.prepare p ctx items
      = (h.addAll (EvalFault.enrichment e).disclosed, .failed (.enrichment (e.withToken none))) := by
  simp only [History.prepare, Program.prepare, enrich, hwrite, Except.mapError, EvalFault.withToken]

namespace Twin

/-- Of two lists of stamps that stand for each other, both or neither has one that has been fired. -/
theorem exists_fired_iff (ht : Twin pairs h h') {l l' : List Stamp}
    (hl : List.Forall₂ (fun s s' => (s, s') ∈ pairs) l l') :
    (∃ s ∈ l, s ∈ h.cancellations.fired) ↔ ∃ s ∈ l', s ∈ h'.cancellations.fired := by
  -- two stamps that stand for each other are both fired or both not
  induction hl with
  | nil => simp
  | cons hhead _ ih =>
    simp only [List.mem_cons, exists_eq_or_imp, ih, ht.fired _ hhead]

theorem isCancelled_eq (ht : Twin pairs h h') (hctx : ctx.Twin pairs ctx') :
    ctx.isCancelled h.cancellations = ctx'.isCancelled h'.cancellations := by
  rw [Bool.eq_iff_iff, Context.isCancelled_iff, Context.isCancelled_iff]
  exact ht.exists_fired_iff hctx.lineage

/-! ### A call of the caller

One lemma is about each thing that a call may do, and `Twin.perform` puts them together. Each has the two
results of the call side by side (`Alike`). -/

theorem alike (ht : Twin pairs h h') (a : Answer) : Alike pairs h (h, a) (h', a) :=
  ⟨rfl, pairs, ht, fun _ hq => .inl hq⟩

theorem addAll (ht : Twin pairs h h') {cs cs' : List Context}
    (hcs : List.Forall₂ (Context.Twin pairs) cs cs') : Twin pairs (h.addAll cs) (h'.addAll cs') :=
  { ht with contexts := List.rel_append ht.contexts hcs }

/-- A context and its twin are shown alike: the same entries, and both cancelled or both active. -/
theorem give (ht : Twin pairs h h') (hctx : ctx.Twin pairs ctx') :
    Alike pairs h (h.give ctx) (h'.give ctx') := by
  refine ⟨?_, pairs, ht.addAll (.cons hctx .nil), fun _ hq => .inl hq⟩
  rw [History.give, History.give, hctx.entries, ht.isCancelled_eq hctx]

/-- A place holds twins in the two runs, or nothing in either. -/
theorem onContext (ht : Twin pairs h h') (source : Nat) {f f' : Context → History × Answer}
    (hf : ∀ ctx ctx', ctx.Twin pairs ctx' → Alike pairs h (f ctx) (f' ctx')) :
    Alike pairs h (h.onContext source f) (h'.onContext source f') := by
  have hrel := rel_getElem? ht.contexts source
  unfold History.onContext
  generalize h.contexts[source]? = ctx? at hrel ⊢
  generalize h'.contexts[source]? = ctx?' at hrel ⊢
  cases hrel with
  | none => exact ht.alike .unknown
  | some hctx => exact hf _ _ hctx

/-- Each run issues its own stamp, and the two stand for each other from now on. -/
theorem addCancellable (ht : Twin pairs h h') (hctx : ctx.Twin pairs ctx') :
    Twin ((h.issuer.stamp, h'.issuer.stamp) :: pairs) (h.addCancellable ctx)
      (h'.addCancellable ctx') where
  contexts := List.rel_append (ht.contexts.imp fun _ _ hc => hc.mono (List.subset_cons_self _ _))
    (.cons (hctx.cancellable _ _) .nil)
  tokens := List.rel_append (ht.tokens.imp fun _ _ hmem => List.mem_cons_of_mem _ hmem)
    (.cons List.mem_cons_self .nil)
  distinct := by
    -- neither new stamp is in a pair already
    have hnew : ∀ r ∈ pairs, r.1 ≠ h.issuer.stamp ∧ r.2 ≠ h'.issuer.stamp := fun r hr =>
      ⟨fun heq => h.issuer.not_spent_stamp (heq ▸ (ht.spent r hr).1),
        fun heq => h'.issuer.not_spent_stamp (heq ▸ (ht.spent r hr).2)⟩
    intro r hr q hq
    rcases List.mem_cons.mp hr with rfl | hr <;> rcases List.mem_cons.mp hq with rfl | hq
    · exact iff_of_true rfl rfl
    · exact iff_of_false (hnew q hq).1.symm (hnew q hq).2.symm
    · exact iff_of_false (hnew r hr).1 (hnew r hr).2
    · exact ht.distinct r hr q hq
  fired := List.forall_mem_cons.mpr
    ⟨iff_of_false (fun hf => h.issuer.not_spent_stamp (ht.spentLeft _ hf))
      (fun hf => h'.issuer.not_spent_stamp (ht.spentRight _ hf)), ht.fired⟩
  spent := List.forall_mem_cons.mpr
    ⟨⟨h.issuer.spent_stamp_next, h'.issuer.spent_stamp_next⟩,
      fun r hr => (ht.spent r hr).imp Issuer.Spent.next Issuer.Spent.next⟩
  spentLeft := fun s hs => (ht.spentLeft s hs).next
  spentRight := fun s hs => (ht.spentRight s hs).next

/-- Firing two tokens that stand for each other fires nothing else, since a stamp that is neither of the two
stands for neither. -/
theorem cancel (ht : Twin pairs h h') {t t' : CancelToken} (htoken : (t.stamp, t'.stamp) ∈ pairs) :
    Twin pairs (h.cancel t) (h'.cancel t') where
  contexts := ht.contexts
  tokens := ht.tokens
  distinct := ht.distinct
  fired := fun r hr => by
    show r.1 ∈ t.stamp :: _ ↔ r.2 ∈ t'.stamp :: _
    rw [List.mem_cons, List.mem_cons, ht.distinct r hr _ htoken, ht.fired r hr]
  spent := ht.spent
  spentLeft := List.forall_mem_cons.mpr ⟨(ht.spent _ htoken).1, ht.spentLeft⟩
  spentRight := List.forall_mem_cons.mpr ⟨(ht.spent _ htoken).2, ht.spentRight⟩

/-- A write through a blind provider does the same below both tokens, and what it discloses are twins too. -/
theorem prepare (hp : p.provider.TokenBlind) (ht : Twin pairs h h') (hctx : ctx.Twin pairs ctx')
    (items : List Item) : Alike pairs h (h.prepare p ctx items) (h'.prepare p ctx' items) := by
  -- the two writes are the same write, below the token of the one context and of the other
  have hself := hp.write ctx ctx.token? items
  have hother := hp.write ctx ctx'.token? items
  rw [Context.withToken_self] at hself
  rw [← hctx.eq_withToken] at hother
  cases hwrite : p.provider.write ctx items with
  | ok next =>
    rw [hwrite] at hself hother
    rw [prepare_of_write_ok (hwrite.trans hself), prepare_of_write_ok hother]
    exact ht.give (hctx.withToken next)
  | error e =>
    rw [hwrite] at hself hother
    rw [prepare_of_write_error (hwrite.trans hself), prepare_of_write_error hother,
      ProviderFault.withToken_withToken, ProviderFault.withToken_withToken]
    refine ⟨rfl, pairs, ht.addAll ?_, fun _ hq => .inl hq⟩
    rw [EvalFault.disclosed_enrichment_withToken, EvalFault.disclosed_enrichment_withToken,
      List.forall₂_map_left_iff, List.forall₂_map_right_iff]
    exact List.forall₂_same.mpr fun kept _ => hctx.withToken kept

/-- A blind provider reads the same. -/
theorem load (hp : p.provider.TokenBlind) (ht : Twin pairs h h') (hctx : ctx.Twin pairs ctx') :
    Alike pairs h (h.load p ctx) (h'.load p ctx') := by
  have hinput : p.input ctx' = p.input ctx := by
    rw [hctx.eq_withToken, Program.input, hp.read, Program.input]
  rw [History.load, History.load, hinput]
  cases p.input ctx with
  | ok data => exact ht.alike _
  | error e => exact ht.alike _

/-- A check tells whether a context is cancelled, and nothing else. -/
theorem check (ht : Twin pairs h h') (hctx : ctx.Twin pairs ctx') :
    Alike pairs h (h.check ctx) (h'.check ctx') := by
  rw [History.check, History.check, requireActive, requireActive, ← ht.isCancelled_eq hctx]
  cases ctx.isCancelled h.cancellations with
  | false => exact ht.alike _
  | true => exact ht.alike _

/-- **A call in both runs.** It is answered alike, and what the caller has then is alike again. -/
theorem perform (hp : p.provider.TokenBlind) (ht : Twin pairs h h') (call : Call) :
    Alike pairs h (h.perform p call) (h'.perform p call) := by
  cases call with
  | bind source key value =>
    refine ht.onContext source fun ctx ctx' hctx => ht.give (hctx.of_lineage ?_ rfl rfl)
    rw [Context.bind, hctx.entries, Context.bind]
  | cancellable source =>
    refine ht.onContext source fun ctx ctx' hctx => ⟨?_, _, ht.addCancellable hctx, fun q hq => ?_⟩
    · have hcancelled := (ht.addCancellable hctx).isCancelled_eq (hctx.cancellable _ _)
      exact congrArg₂ Answer.context hctx.entries.symm hcancelled
    · rcases List.mem_cons.mp hq with rfl | hq
      · exact .inr rfl
      · exact .inl hq
  | prepare source items => exact ht.onContext source fun ctx ctx' hctx => ht.prepare hp hctx items
  | load source => exact ht.onContext source fun ctx ctx' hctx => ht.load hp hctx
  | check source => exact ht.onContext source fun ctx ctx' hctx => ht.check hctx
  | cancel token =>
    have hrel := rel_getElem? ht.tokens token
    unfold History.perform
    dsimp only
    generalize h.tokens[token]? = t? at hrel ⊢
    generalize h'.tokens[token]? = t?' at hrel ⊢
    cases hrel with
    | none => exact ht.alike .unknown
    | some htoken => exact ⟨rfl, pairs, ht.cancel htoken, fun _ hq => .inl hq⟩

end Twin

/-! ### What a call changes

To another caller only three things matter about a call: that it changes nothing shared, that it takes a stamp,
or that it fires a token. -/

/-- Nothing has changed but the contexts. -/
structure Keeps (h next : History) : Prop where
  tokens : next.tokens = h.tokens
  cancellations : next.cancellations = h.cancellations
  issuer : next.issuer = h.issuer

theorem Keeps.refl (h : History) : Keeps h h := ⟨rfl, rfl, rfl⟩

theorem keeps_prepare (p : Program β Provider) (h : History) (ctx : Context) (items : List Item) :
    Keeps h (h.prepare p ctx items).1 := by
  unfold prepare
  split <;> exact ⟨rfl, rfl, rfl⟩

theorem keeps_load (p : Program β Provider) (h : History) (ctx : Context) :
    Keeps h (h.load p ctx).1 := by
  unfold load
  split <;> exact .refl h

theorem keeps_check (h : History) (ctx : Context) : Keeps h (h.check ctx).1 := by
  unfold check
  split <;> exact .refl h

/-- Either there is no such context, and nothing happens, or the call is about the one that is found. -/
theorem onContext_cases (h : History) (source : Nat) (f : Context → History × Answer) :
    h.onContext source f = (h, .unknown) ∨ ∃ ctx, h.onContext source f = f ctx := by
  unfold onContext
  split
  · exact .inl rfl
  · exact .inr ⟨_, rfl⟩

/-- A call changes nothing but the contexts of its caller, or it makes a token for the caller, or it fires
one of the caller's. -/
theorem perform_cases (p : Program β Provider) (h : History) (call : Call) :
    Keeps h (h.perform p call).1 ∨ (∃ ctx, (h.perform p call).1 = h.addCancellable ctx) ∨
      ∃ t ∈ h.tokens, (h.perform p call).1 = h.cancel t := by
  -- a call that names no context changes nothing at all
  have hkeeps : ∀ source f, (∀ ctx, Keeps h (f ctx).1) → Keeps h (h.onContext source f).1 := by
    intro source f hf
    rcases h.onContext_cases source f with heq | ⟨ctx, heq⟩ <;> rw [heq]
    · exact .refl h
    · exact hf ctx
  cases call with
  | bind source key value => exact .inl (hkeeps source _ fun ctx => ⟨rfl, rfl, rfl⟩)
  | cancellable source =>
    rw [perform]
    rcases h.onContext_cases source _ with heq | ⟨ctx, heq⟩ <;> rw [heq]
    · exact .inl (.refl h)
    · exact .inr (.inl ⟨ctx, rfl⟩)
  | prepare source items => exact .inl (hkeeps source _ fun ctx => keeps_prepare p h ctx items)
  | load source => exact .inl (hkeeps source _ fun ctx => keeps_load p h ctx)
  | check source => exact .inl (hkeeps source _ fun ctx => keeps_check h ctx)
  | cancel token =>
    rw [perform]
    cases ht : h.tokens[token]? with
    | none => exact .inl (.refl h)
    | some t => exact .inr (.inr ⟨t, List.mem_of_getElem? ht, rfl⟩)

/-- Another caller makes a token: the stamps in use stay given out. -/
theorem Twin.issue (ht : Twin pairs h h') : Twin pairs { h with issuer := h.issuer.next } h' :=
  { ht with
    spent := fun r hr => (ht.spent r hr).imp_left Issuer.Spent.next
    spentLeft := fun s hs => (ht.spentLeft s hs).next }

/-- Another caller fires a token: it stands for nothing that this caller has. -/
theorem Twin.fire (ht : Twin pairs h h') {t : CancelToken} (hspent : h.issuer.Spent t.stamp)
    (hstrange : ∀ r ∈ pairs, r.1 ≠ t.stamp) : Twin pairs (h.cancel t) h' :=
  { ht with
    fired := fun r hr => by
      rw [← ht.fired r hr]
      exact List.mem_cons.trans (or_iff_right (hstrange r hr))
    spentLeft := List.forall_mem_cons.mpr ⟨hspent, ht.spentLeft⟩ }

end History

/-! ## Whole runs

A turn is either this caller's, and then both worlds move, or another's, and then only the first does. -/

namespace World

variable {ι β : Type} {p : Program β Provider} {i j k : ι} {pairs : Pairing} {w w' : World ι}

/-! ### The invariant

What this caller has is in the two worlds as `Twin` says. Beyond that, the tokens of the others must not be
mistaken for its own. -/

/-- The first world goes on with all callers, the second with this one only. The tokens of the others have
been given out, and they stand for nothing that this caller has. -/
structure Corresponds (i : ι) (pairs : Pairing) (w w' : World ι) : Prop where
  twin : History.Twin pairs (w.view i) (w'.view i)
  spent : ∀ j ≠ i, ∀ t ∈ w.tokens j, w.issuer.Spent t.stamp
  strange : ∀ j ≠ i, ∀ t ∈ w.tokens j, ∀ r ∈ pairs, r.1 ≠ t.stamp

/-- At the start both runs are the same, and every stamp stands for itself. -/
theorem corresponds_start {base : Context} {cancellations : Cancellations} {issuer : Issuer}
    (hbase : ∀ stamp ∈ base.lineage, issuer.Spent stamp)
    (hfired : ∀ stamp ∈ cancellations.fired, issuer.Spent stamp) (i : ι) :
    Corresponds i (base.lineage.map fun stamp => (stamp, stamp))
      (start base cancellations issuer) (start base cancellations issuer) := by
  -- the pairs are those of a stamp with itself, and there are no tokens yet
  have hpair : ∀ r ∈ base.lineage.map fun stamp => (stamp, stamp),
      r.1 = r.2 ∧ issuer.Spent r.2 := by
    intro r hr
    obtain ⟨stamp, hmem, rfl⟩ := List.mem_map.mp hr
    exact ⟨rfl, hbase stamp hmem⟩
  refine ⟨⟨.cons ⟨rfl, ?_⟩ .nil, .nil, ?_, ?_, ?_, hfired, hfired⟩, nofun, nofun⟩
  · exact List.forall₂_same.mpr fun stamp hmem => List.mem_map_of_mem hmem
  · intro r hr q hq
    rw [(hpair r hr).1, (hpair q hq).1]
  · intro r hr
    rw [(hpair r hr).1]
  · intro r hr
    rw [(hpair r hr).1]
    exact ⟨(hpair r hr).2, (hpair r hr).2⟩

variable [DecidableEq ι]

/-! ### What a turn changes

Two facts about stamps that both cases need. -/

/-- No turn takes back a stamp. -/
theorem spent_turn {stamp : Stamp} (h : w.issuer.Spent stamp) (j : ι) (call : Call) :
    (w.turn p j call).1.issuer.Spent stamp := by
  show ((w.view j).perform p call).1.issuer.Spent stamp
  rcases (w.view j).perform_cases p call with hkeeps | ⟨ctx, heq⟩ | ⟨t, _, heq⟩
  · rw [hkeeps.issuer]
    exact h
  · rw [heq]
    exact h.next
  · rw [heq]
    exact h

/-- A token is old, or it bears the next stamp. -/
theorem mem_tokens_turn {call : Call} {t : CancelToken} (ht : t ∈ (w.turn p j call).1.tokens k) :
    t ∈ w.tokens k ∨
      t.stamp = w.issuer.stamp ∧ (w.turn p j call).1.issuer.Spent w.issuer.stamp := by
  -- only the caller whose turn it is can have made a token
  by_cases hkj : k = j
  · subst hkj
    have hmem : t ∈ ((w.view k).perform p call).1.tokens := by
      simpa [turn, put] using ht
    show _ ∨ _ ∧ ((w.view k).perform p call).1.issuer.Spent _
    rcases (w.view k).perform_cases p call with hkeeps | ⟨ctx, heq⟩ | ⟨u, _, heq⟩
    · rw [hkeeps.tokens] at hmem
      exact .inl hmem
    · rw [heq] at hmem ⊢
      rcases List.mem_append.mp hmem with hold | hnew
      · exact .inl hold
      · obtain rfl := List.mem_singleton.mp hnew
        exact .inr ⟨rfl, w.issuer.spent_stamp_next⟩
    · rw [heq] at hmem
      exact .inl hmem
  · have hput : (w.turn p j call).1.tokens k = w.tokens k := Function.update_of_ne hkj _ _
    rw [hput] at ht
    exact .inl ht

/-! ### Every turn keeps the invariant

In both cases the tokens of the others stay strange to this caller, as a new token bears a stamp that has not
been given out before. -/

/-- A turn of this caller, in both worlds. -/
theorem Corresponds.own (hp : p.provider.TokenBlind) (hc : Corresponds i pairs w w') (call : Call) :
    (w.turn p i call).2 = (w'.turn p i call).2 ∧
      ∃ pairs', Corresponds i pairs' (w.turn p i call).1 (w'.turn p i call).1 := by
  obtain ⟨hanswer, pairs', htwin, hpairs⟩ := hc.twin.perform hp call
  have hold : ∀ j ≠ i, (w.turn p i call).1.tokens j = w.tokens j :=
    fun j hji => Function.update_of_ne hji _ _
  refine ⟨hanswer, pairs', ?_, fun j hji t ht => ?_, fun j hji t ht r hr => ?_⟩
  · rw [turn, turn, view_put_self, view_put_self]
    exact htwin
  · rw [hold j hji] at ht
    exact spent_turn (hc.spent j hji t ht) i call
  · rw [hold j hji] at ht
    rcases hpairs r hr with hmem | hnew
    · exact hc.strange j hji t ht r hmem
    · -- the next stamp has not been given to another caller
      intro heq
      refine w.issuer.not_spent_stamp ?_
      have hspent := hc.spent j hji t ht
      rw [← heq, hnew] at hspent
      exact hspent

/-- A turn of another caller, in the first world only. -/
theorem Corresponds.other (hc : Corresponds i pairs w w') (hji : j ≠ i) (call : Call) :
    Corresponds i pairs (w.turn p j call).1 w' := by
  refine ⟨?_, fun k hki t ht => ?_, fun k hki t ht r hr => ?_⟩
  · rw [turn, view_put_of_ne w hji.symm]
    rcases (w.view j).perform_cases p call with hkeeps | ⟨ctx, heq⟩ | ⟨t, hmem, heq⟩
    · rw [hkeeps.cancellations, hkeeps.issuer]
      exact hc.twin
    · rw [heq]
      exact hc.twin.issue
    · rw [heq]
      exact hc.twin.fire (hc.spent j hji t hmem) (hc.strange j hji t hmem)
  · rcases mem_tokens_turn ht with hold | ⟨hstamp, hspent⟩
    · exact spent_turn (hc.spent k hki t hold) j call
    · rw [hstamp]
      exact hspent
  · rcases mem_tokens_turn ht with hold | ⟨hstamp, _⟩
    · exact hc.strange k hki t hold r hr
    · -- the stamps of this caller have been given out, so the next one is none of them
      rw [hstamp]
      intro heq
      exact w.issuer.not_spent_stamp (heq ▸ (hc.twin.spent r hr).1)

/-- **The whole run**, by induction on the turns: those of the caller are made in both worlds, those of others
in the first only. -/
theorem Corresponds.heard_eq (hp : p.provider.TokenBlind) (hc : Corresponds i pairs w w')
    (turns : List (ι × Call)) :
    heard i (answers p w turns) = heard i (answers p w' (turns.filter fun t => t.1 = i)) := by
  induction turns generalizing pairs w w' with
  | nil => rfl
  | cons turn rest ih =>
    obtain ⟨j, call⟩ := turn
    -- the second run has the caller's own turns only
    by_cases hji : j = i
    · subst hji
      obtain ⟨hanswer, pairs', hnext⟩ := hc.own hp call
      simp only [List.filter_cons, decide_true, if_true, answers, heard_cons_self]
      rw [hanswer, ih hnext]
    · simp only [List.filter_cons, hji, decide_false, Bool.false_eq_true, if_false, answers,
        heard_cons_of_ne hji]
      exact ih (hc.other hji call)

/-- **No interference.** Whatever the others call in between, and in whatever order, each caller is answered
as in the run with its calls only: the same data, the same errors up to the tokens in them, the same
contexts, also those that a failed write leaves to it, and each of them as cancelled or as active as there.
The provider is any tree, the base context may have a token, and that token may have been cancelled. Stamps
in use must have been given out, as they are in every history (`History.Issued.of_run`). -/
theorem answers_alone {ι β : Type} [DecidableEq ι] (p : Program β Provider) (t : Tree)
    (hprovider : p.provider = t.provider) (base : Context) (cancellations : Cancellations)
    (issuer : Issuer)
    (hissued : ∀ stamp, stamp ∈ base.lineage ∨ stamp ∈ cancellations.fired → issuer.Spent stamp)
    (turns : List (ι × Call)) (i : ι) :
    heard i (answers p (start base cancellations issuer) turns)
      = heard i (answers p (start base cancellations issuer) (turns.filter fun turn => turn.1 = i)) := by
  have hblind : p.provider.TokenBlind := hprovider ▸ t.tokenBlind
  have hstart := corresponds_start (fun stamp h => hissued stamp (.inl h))
    (fun stamp h => hissued stamp (.inr h)) i
  exact hstart.heard_eq hblind turns

/-- Two callers make a token each. One of them fails to store all of its items and cancels its token; the
other writes and checks. -/
def twoCallers : List (Bool × Call) :=
  [(false, .cancellable 0), (true, .cancellable 0), (false, .prepare 1 Tree.halfStorable),
    (true, .bind 1 "k" .null), (false, .cancel 0), (false, .check 2), (true, .check 2)]

/-- What the two callers share: a context with a token, which nobody cancels. -/
def sharedBase : Context := Context.root.cancellable ⟨0, 0⟩

/-- The first caller finds the context that its failed write has left cancelled, and the second stays
active. -/
theorem answers_alone_twoCallers :
    Evaluator.greeter.provider = (Tree.layered Evaluator.greeterLayers).provider ∧
    (∀ stamp, stamp ∈ sharedBase.lineage ∨ stamp ∈ Cancellations.none.fired →
      (Issuer.mk 0 1).Spent stamp) ∧
    heard false (answers Evaluator.greeter (start sharedBase .none ⟨0, 1⟩) twoCallers)
      = [.context [] false,
          .failed (.enrichment (.failed 4 (.incomplete Tree.halfStored [.unsupported 1 .null]))),
          .done, .failed .cancelled] ∧
    heard true (answers Evaluator.greeter (start sharedBase .none ⟨0, 1⟩) twoCallers)
      = [.context [] false, .context [("k", .null)] false, .done] := by
  have hmade : History.start.run [.root, .cancellable 0]
      = some ⟨[.root, sharedBase], [Context.root.childToken ⟨0, 0⟩], .none, ⟨0, 1⟩⟩ := rfl
  have hissued : ∀ stamp, stamp ∈ sharedBase.lineage ∨ stamp ∈ Cancellations.none.fired →
      (Issuer.mk 0 1).Spent stamp := by
    have hi := History.Issued.of_run hmade
    exact fun stamp h => h.elim (hi.contexts sharedBase (by simp) stamp) (hi.fired stamp)
  have halone := answers_alone Evaluator.greeter (.layered Evaluator.greeterLayers) rfl _ _ _ hissued
    twoCallers
  exact ⟨rfl, hissued, (halone false).trans rfl, (halone true).trans rfl⟩

end World

end ScriptHost
