import ScriptHost.Proofs.Provider.LayerPositions
import ScriptHost.Proofs.Provider.LayeredRead

/-!
# Providers do not look at tokens

A context carries its entries and the token that cancels it. Providers read and write entries only: with
another token a read gives the same, and a write gives the same but for the token of the contexts that it
hands out, be it as its result or in its error (`Provider.TokenBlind`). There is one lemma for each kind of
provider, and from them **`Tree.tokenBlind`**: every tree of providers is blind to tokens.
-/

namespace ScriptHost

/-! ## Another token

What a write hands out may carry contexts: its result is one, and so may be a cause of its error. Another token
is put on all of them at once. -/

namespace Context

/-- The same entries below another token. -/
def withToken (ctx : Context) (token? : Option CancelToken) : Context := { ctx with token? := token? }

@[simp] theorem withToken_self (ctx : Context) : ctx.withToken ctx.token? = ctx := rfl

@[simp] theorem withToken_withToken (ctx : Context) (token? token'? : Option CancelToken) :
    (ctx.withToken token?).withToken token'? = ctx.withToken token'? := rfl

@[simp] theorem value?_withToken (ctx : Context) (token? : Option CancelToken) (k : String) :
    (ctx.withToken token?).value? k = ctx.value? k := rfl

end Context

namespace ProviderFault

/-- The same error, with another token on the contexts that it carries. -/
def withToken (token? : Option CancelToken) : ProviderFault → ProviderFault
  | .incomplete context failures => .incomplete (context.withToken token?) failures
  | .failed position source => .failed position (source.withToken token?)
  | e => e

/-- A refusal is one with any token, since it carries no context. -/
@[simp] theorem isFixedRefusal_withToken (token? : Option CancelToken) (e : ProviderFault) :
    (e.withToken token?).isFixedRefusal = e.isFixedRefusal := by
  induction e with
  | failed position source ih => exact ih
  | _ => rfl

/-- The same for the contexts that an error carries, at any depth. -/
@[simp] theorem withToken_withToken (token? token'? : Option CancelToken) (e : ProviderFault) :
    (e.withToken token?).withToken token'? = e.withToken token'? := by
  induction e with
  | failed position source ih => exact congrArg (failed position) ih
  | _ => rfl

end ProviderFault

/-- The same result of a write, with another token on the contexts that it hands out. -/
def withTokenAll (token? : Option CancelToken) :
    Except ProviderFault Context → Except ProviderFault Context
  | .ok context => .ok (context.withToken token?)
  | .error e => .error (e.withToken token?)

/-! ## Blind providers

For fixed data and for per-call data this is seen from what they do. For layers it follows from the layers,
which is why it is said of providers and not of trees. -/

namespace Provider

/-- The provider reads the entries of a context only, and hands tokens on as they are. -/
structure TokenBlind (p : Provider) : Prop where
  read : ∀ ctx token?, p.read (ctx.withToken token?) = p.read ctx
  write : ∀ ctx token? items,
    p.write (ctx.withToken token?) items = withTokenAll token? (p.write ctx items)

namespace TokenBlind

theorem fixed (data : DataMap) : TokenBlind (Provider.fixed data) where
  read _ _ := rfl
  write _ _ _ := rfl

/-- A provider of per-call data reads one entry and binds one, and a binding keeps the token. -/
theorem buckets (keys : DataKeys) : TokenBlind (Provider.buckets keys) where
  read _ _ := rfl
  write ctx token? items := by
    show Buckets.write keys (ctx.withToken token?) items = withTokenAll token? (Buckets.write keys ctx items)
    -- entries are all that a read or a commit looks at, and they are the same
    have hread : Buckets.read keys (ctx.withToken token?) = Buckets.read keys ctx := rfl
    have hcommit : ∀ data, Buckets.commit keys (ctx.withToken token?) data (Item.accepted items)
        = (Buckets.commit keys ctx data (Item.accepted items)).withToken token? := by
      intro data
      cases Item.accepted items <;> rfl
    cases h : Buckets.read keys ctx with
    | error e =>
      rw [Buckets.write_of_read_error h, Buckets.write_of_read_error (hread.trans h)]
      -- a read does not hand out contexts in its errors
      rcases Buckets.read_error_cases h with rfl | ⟨found, rfl⟩ <;> rfl
    | ok data =>
      by_cases hitems : Item.failures items = []
      · rw [Buckets.write_of_storable h hitems, Buckets.write_of_storable (hread.trans h) hitems, hcommit]
        rfl
      · rw [Buckets.write_of_failures h hitems, Buckets.write_of_failures (hread.trans h) hitems, hcommit]
        rfl

end TokenBlind

end Provider

namespace Layers

variable {ls : List (Nat × Provider)} {layers : Layers}

/-- The same progress of a write, below another token. -/
def Progress.withToken (token? : Option CancelToken) (progress : Progress) : Progress :=
  { progress with context := progress.context.withToken token? }

/-- Layers of blind providers read the same. -/
theorem readAll_withToken (h : ∀ l ∈ ls, l.2.TokenBlind) (ctx : Context) (token? : Option CancelToken) :
    readAll (ctx.withToken token?) ls = readAll ctx ls := by
  induction ls with
  | nil => rfl
  | cons l rest ih =>
    rw [readAll, readAll, (h l List.mem_cons_self).read,
      ih fun l' hl' => h l' (List.mem_cons_of_mem _ hl')]

/-- A blind layer answers in the same way below another token. -/
theorem step_withToken {l : Nat × Provider} (h : l.2.TokenBlind) (items : List Item)
    (token? : Option CancelToken) (progress : Progress) :
    step items (progress.withToken token?) l
      = ((step items progress l).map (.withToken token?)).mapError (.withToken token?) := by
  have hwrite : l.2.write (progress.withToken token?).context items
      = withTokenAll token? (l.2.write progress.context items) := h.write progress.context token? items
  -- a refusal is still a refusal below the other token, so the layer answers alike
  rcases step_cases items progress l with ⟨next, hp, hstep⟩ | ⟨e, hp, he, hstep⟩ | ⟨e, hp, he, hstep⟩
  · rw [hp] at hwrite
    rw [hstep]
    exact writeAll_accept hwrite
  · rw [hp] at hwrite
    rw [hstep]
    exact writeAll_refuse hwrite ((e.isFixedRefusal_withToken token?).trans he)
  · rw [hp] at hwrite
    rw [hstep]
    exact writeAll_fail hwrite ((e.isFixedRefusal_withToken token?).trans he)

/-- The walks below the two tokens go hand in hand: they accept, refuse and fail at the same layers. -/
theorem writeAll_withToken (h : ∀ l ∈ ls, l.2.TokenBlind) (items : List Item) (progress : Progress)
    (token? : Option CancelToken) :
    writeAll items (progress.withToken token?) ls
      = match writeAll items progress ls with
        | .ok after => .ok (after.withToken token?)
        | .error e => .error (e.withToken token?) := by
  have hwalk := writeAll_map (g := id) (fun l hl => step_withToken (h l hl) items token?) progress
  rw [List.map_id] at hwalk
  rw [hwalk]
  cases writeAll items progress ls <;> rfl

end Layers

/-- Layers of blind providers are blind. -/
theorem Provider.TokenBlind.layered {layers : Layers} (h : ∀ p, some p ∈ layers → p.TokenBlind) :
    TokenBlind (Provider.layered layers) := by
  have hactive : ∀ l ∈ layers.active, l.2.TokenBlind := fun l hl => h l.2 (List.mem_of_getElem? (Layers.mem_active_iff.mp hl))
  constructor
  · intro ctx token?
    show Layers.read layers (ctx.withToken token?) = Layers.read layers ctx
    rw [Layers.read, Layers.readAll_withToken hactive, Layers.read]
  · intro ctx token? items
    show Layers.write layers (ctx.withToken token?) items = withTokenAll token? (Layers.write layers ctx items)
    -- the notes of the two walks are the same, and so is the verdict on them
    have hall := Layers.writeAll_withToken hactive items ⟨ctx, false, false⟩ token?
    cases hwrite : Layers.writeAll items ⟨ctx, false, false⟩ layers.active with
    | error e =>
      rw [hwrite] at hall
      rw [Layers.write_of_writeAll_error hwrite, Layers.write_of_writeAll_error hall]
      rfl
    | ok after =>
      rw [hwrite] at hall
      rw [Layers.write_of_writeAll_ok hwrite, Layers.write_of_writeAll_ok hall]
      show (if !after.accepted && after.refused then _ else _) = _
      split <;> rfl

namespace Tree

/-- The layers of a tree's provider are the providers of trees. -/
theorem exists_of_mem_providers {layers : List (Option Tree)} {p : Provider}
    (h : some p ∈ providers layers) : ∃ t, some t ∈ layers ∧ t.provider = p := by
  rw [← List.reduceOption_mem_iff, reduceOption_providers] at h
  obtain ⟨t, ht, hp⟩ := List.mem_map.mp h
  exact ⟨t, List.reduceOption_mem_iff.mp ht, hp⟩

/-- **No tree of providers looks at tokens.** -/
theorem tokenBlind (t : Tree) : t.provider.TokenBlind := by
  induction t with
  | fixed data => exact .fixed data
  | buckets keys => exact .buckets keys
  | layered layers ih =>
    refine .layered fun p hp => ?_
    obtain ⟨t, ht, rfl⟩ := exists_of_mem_providers hp
    exact ih t ht

end Tree

end ScriptHost
