import ScriptHost.Proofs.Provider.TreeWalk

/-!
# What a write leaves behind

A write hands one context from site to site of a tree, so a site sees what the sites before it have stored.
This module compares it with reads and writes in the context that the caller has handed in.

* **`writeSites_of_storable`**: the first site that cannot be read in the caller's context is where the
  write fails. The invariant is `SameFaults`: what has been stored so far neither breaks nor mends a read.
* **`Written.run`**: every site ends up with what it would have stored alone. The invariant is `Written`;
  that a key may be written more than once rests on the replay of a list of items.
-/

namespace ScriptHost

namespace Buckets

variable {keys : DataKeys} {ctx c next : Context} {items : List Item}

/-! ## Writes of one provider, compared

A provider looks at one key. If two contexts agree there, it stores the same in both; if it has written there
already, it stores nothing new. -/

/-- The keys of the buckets do not matter to a read, only the key of the stored data does. -/
theorem read_keys_congr {keys' : DataKeys} (h : keys'.contextKey = keys.contextKey) (ctx : Context) :
    read keys' ctx = read keys ctx := by
  rw [read, read, h]

/-- In contexts that agree on the provider's key, a write stores the same there. -/
theorem write_congr (hc : c.value? keys.contextKey = ctx.value? keys.contextKey)
    (h : write keys c items = .ok next) :
    ∃ own, write keys ctx items = .ok own ∧
      next.value? keys.contextKey = own.value? keys.contextKey := by
  obtain ⟨data, hread, hitems, rfl⟩ := write_eq_ok_iff.mp h
  rw [read_congr hc] at hread
  refine ⟨_, write_of_storable hread hitems, ?_⟩
  rw [value?_commit, value?_commit, hc]

/-- A write after the same write changes nothing. -/
theorem write_again {own : Context} (hown : write keys ctx items = .ok own)
    (hc : c.value? keys.contextKey = own.value? keys.contextKey)
    (h : write keys c items = .ok next) :
    next.value? keys.contextKey = own.value? keys.contextKey := by
  obtain ⟨data, hread, _, rfl⟩ := write_eq_ok_iff.mp hown
  obtain ⟨data', hread', _, rfl⟩ := write_eq_ok_iff.mp h
  -- what is read there is what the first write has left
  rw [read_congr hc, read_commit hread] at hread'
  obtain rfl := Except.ok.inj hread'
  rw [value?_commit, foldl_put_replay, hc, value?_commit]
  split <;> rfl

end Buckets

/-! ## Reads before and after

A site far down the list is read after others have written. What they have written is a map, and they could only
write where there was a map or nothing, so a site that could not be read before cannot be read now, and the
other way round. -/

/-- The two contexts keep the same providers of per-call data from being read, for the same reason. -/
def SameFaults (c d : Context) : Prop :=
  ∀ keys, (Provider.buckets keys).readFault? c = (Provider.buckets keys).readFault? d

theorem SameFaults.refl (c : Context) : SameFaults c c := fun _ => rfl

/-- The walk makes one step after the other, so what holds of each must add up. -/
theorem SameFaults.trans {c d e : Context} (h : SameFaults c d) (h' : SameFaults d e) :
    SameFaults c e := fun keys => (h keys).trans (h' keys)

/-- A commit stores a map where there was a map or nothing. -/
theorem sameFaults_commit {keys : DataKeys} {c : Context} {data : DataMap}
    (h : Buckets.read keys c = .ok data) (cs : List Classified) :
    SameFaults (Buckets.commit keys c data cs) c := by
  intro keys'
  -- a provider has the key that was bound, or sees nothing of the commit
  by_cases hkey : keys'.contextKey = keys.contextKey
  · have hbefore : (Provider.buckets keys').readFault? c = none :=
      Provider.readFault?_eq_none_iff.mpr ⟨data, (Buckets.read_keys_congr hkey c).trans h⟩
    have hafter : (Provider.buckets keys').readFault? (Buckets.commit keys c data cs) = none :=
      Provider.readFault?_eq_none_iff.mpr
        ⟨_, (Buckets.read_keys_congr hkey _).trans (Buckets.read_commit h cs)⟩
    rw [hbefore, hafter]
  · have hread : Buckets.read keys' (Buckets.commit keys c data cs) = Buckets.read keys' c :=
      Buckets.read_congr (Buckets.value?_commit_of_ne hkey data cs)
    exact Provider.readFault?_congr hread

namespace Tree

variable {items : List Item} {ctx c next : Context}

/-- The first fault of some sites is the same in both contexts. -/
theorem firstFault?_congr (h : SameFaults c ctx) (sites : List Site) :
    firstFault? c sites = firstFault? ctx sites := by
  have hsite : Site.fault? c = Site.fault? ctx := by
    funext s
    rw [Site.fault?, Site.fault?, h]
  rw [firstFault?, firstFault?, hsite]

/-- A walk with items that can all be stored fails where the first read in the caller's context does, and
otherwise reaches the end. -/
theorem writeSites_of_storable (hitems : Item.failures items = []) (hsame : SameFaults c ctx)
    (sites : List Site) :
    (∀ e, firstFault? ctx sites = some e → writeSites items c sites = .error e) ∧
    (firstFault? ctx sites = none →
      ∃ next, writeSites items c sites = .ok next ∧ SameFaults next ctx) := by
  induction sites generalizing c with
  | nil =>
    refine ⟨fun e he => ?_, fun _ => ⟨c, rfl, hsame⟩⟩
    cases he
  | cons s rest ih =>
    -- the site is read in `c` here and in `ctx` by the caller, which `hsame` makes the same
    rw [firstFault?, List.findSome?_cons, Site.fault?, ← hsame s.keys]
    cases hread : Buckets.read s.keys c with
    | error e =>
      rw [Provider.readFault?_eq_some_iff.mpr hread,
        writeSites_cons_error (Buckets.write_of_read_error hread)]
      refine ⟨fun e' he => ?_, fun hnone => ?_⟩
      · rw [Option.some.inj he]
      · cases hnone
    | ok data =>
      rw [Provider.readFault?_eq_none_iff.mpr ⟨data, hread⟩,
        writeSites_cons_ok (Buckets.write_of_storable hread hitems)]
      exact ih ((sameFaults_commit hread (Item.accepted items)).trans hsame)

/-- What takes a write is not fixed data throughout. -/
theorem not_allFixed_of_write_ok {t : Tree} (h : t.provider.write ctx items = .ok next) :
    ¬ t.AllFixed := by
  intro hfixed
  rw [write_of_allFixed hfixed] at h
  cases h

/-- A tree cannot be read because of its first site that cannot. -/
theorem read_eq_error_iff {t : Tree} {e : ProviderFault} :
    t.provider.read ctx = .error e ↔ firstFault? ctx t.sites = some e := by
  rw [← readFault?_eq, Provider.readFault?_eq_some_iff]

/-- A tree can be read if all of its sites can. -/
theorem exists_read_ok_iff {t : Tree} :
    (∃ data, t.provider.read ctx = .ok data) ↔ firstFault? ctx t.sites = none := by
  rw [← readFault?_eq, Provider.readFault?_eq_none_iff]

/-- A fault of the tree is that of one of its providers, with the path to it. -/
theorem firstFault?_cause {sites : List Site} {e : ProviderFault}
    (h : firstFault? ctx sites = some e) :
    ∃ s ∈ sites, ∃ cause, Buckets.read s.keys ctx = .error cause ∧ e = cause.under s.path := by
  obtain ⟨s, hs, hfault⟩ := List.exists_of_findSome?_eq_some h
  obtain ⟨cause, hcause, rfl⟩ := Option.map_eq_some_iff.mp hfault
  exact ⟨s, hs, cause, Provider.readFault?_eq_some_iff.mp hcause, rfl⟩

/-- A tree of fixed data has no site to read and refuses the write; any other tree walks. -/
theorem read_eq_error_iff_write (hitems : Item.failures items = []) {t : Tree} {e : ProviderFault} :
    t.provider.read ctx = .error e ↔
      t.provider.write ctx items = .error e ∧ e.isFixedRefusal = false := by
  rw [read_eq_error_iff]
  -- the error of a write may be a refusal, which no read gives
  by_cases hfixed : t.AllFixed
  · rw [hfixed.sites_eq_nil, write_of_allFixed hfixed]
    constructor
    · intro h
      cases h
    · rintro ⟨h, hopen⟩
      obtain rfl := Except.error.inj h
      cases hopen
  · have hwalk := writeSites_of_storable hitems (SameFaults.refl ctx) t.sites
    rw [write_of_not_allFixed hfixed]
    constructor
    · intro h
      have hwrite := hwalk.1 e h
      exact ⟨hwrite, writeSites_error_not_refusal hwrite⟩
    · rintro ⟨h, _⟩
      cases hfault : firstFault? ctx t.sites with
      | some e' =>
        rw [hwalk.1 e' hfault] at h
        rw [Except.error.inj h]
      | none =>
        obtain ⟨next, hnext, _⟩ := hwalk.2 hfault
        rw [hnext] at h
        cases h

/-- A write that succeeds finds a tree that can be read, and leaves one. -/
theorem exists_read_ok_of_write_ok (hitems : Item.failures items = []) {t : Tree}
    (h : t.provider.write ctx items = .ok next) :
    (∃ data, t.provider.read ctx = .ok data) ∧ ∃ data, t.provider.read next = .ok data := by
  have hwalk := writeSites_of_storable hitems (SameFaults.refl ctx) t.sites
  rw [write_of_not_allFixed (not_allFixed_of_write_ok h)] at h
  rw [exists_read_ok_iff, exists_read_ok_iff]
  cases hfault : firstFault? ctx t.sites with
  | some e =>
    rw [hwalk.1 e hfault] at h
    cases h
  | none =>
    obtain ⟨last, hlast, hsame⟩ := hwalk.2 hfault
    obtain rfl := Except.ok.inj (hlast.symm.trans h)
    exact ⟨rfl, (firstFault?_congr hsame t.sites).trans hfault⟩

/-- **Reads and writes refuse the same contexts.** With items that can all be stored, a tree cannot be read
exactly if a write fails otherwise than as a refusal by fixed data, and the errors are the same. They
come from a provider of per-call data without a key, or whose key holds something else than a map. After
a write that succeeds the tree can still be read. -/
theorem write_fails_as_read (t : Tree) (ctx : Context) (items : List Item)
    (hitems : ∀ (i : Nat) (item : Item), items[i]? = some item → ∃ c, item.classify i = .ok c) :
    (∀ e, t.provider.read ctx = .error e ↔
      t.provider.write ctx items = .error e ∧ e.isFixedRefusal = false) ∧
    (∀ e, t.provider.read ctx = .error e → ∃ s ∈ t.sites, ∃ cause, e = cause.under s.path ∧
      Buckets.read s.keys ctx = .error cause ∧
      (cause = .emptyKey ∨ ∃ found, cause = .notAMap s.keys.contextKey found)) ∧
    (∀ next, t.provider.write ctx items = .ok next →
      (∃ data, t.provider.read ctx = .ok data) ∧ ∃ data, t.provider.read next = .ok data) := by
  have hstorable : Item.failures items = [] := (Item.failures_eq_nil_iff items).mpr hitems
  refine ⟨fun e => read_eq_error_iff_write hstorable, fun e h => ?_,
    fun next h => exists_read_ok_of_write_ok hstorable h⟩
  obtain ⟨s, hs, cause, hcause, rfl⟩ := firstFault?_cause (read_eq_error_iff.mp h)
  exact ⟨s, hs, cause, rfl, hcause, Buckets.read_error_cases hcause⟩

/-- A gap, fixed data, and per-call data twice: once alone, and once in layers below other per-call data. -/
def nested : Tree :=
  .layered [none, some (.fixed ∅), some (.buckets .standard),
    some (.layered [some (.buckets ⟨"other", "in", "req", "res"⟩), none, some (.buckets .standard)])]

/-- Maps that disagree under one key: a map, a value that is no map, and another map. -/
def disagreeing : List Item :=
  [.map (Buckets.single "a" (.map (Buckets.single "x" (.bool true)))),
    .value (.map (Buckets.single "a" .null)),
    .map (Buckets.single "a" (.map (Buckets.single "y" (.bool true))))]

/-- A context that holds no map under a key which a lower layer reads. -/
theorem write_fails_as_read_nested :
    (∀ (i : Nat) (item : Item), disagreeing[i]? = some item → ∃ c, item.classify i = .ok c) ∧
    nested.provider.write (Context.root.bind "other" (.bool true)) disagreeing
      = .error (.failed 3 (.failed 0 (.notAMap "other" .bool))) := by
  have hitems := (Item.failures_eq_nil_iff disagreeing).mp rfl
  have hread : nested.provider.read (Context.root.bind "other" (.bool true))
      = .error (.failed 3 (.failed 0 (.notAMap "other" .bool))) := rfl
  exact ⟨hitems, (((write_fails_as_read nested _ disagreeing hitems).1 _).mp hread).1⟩

/-! ## Every site stores what it would store alone

The sites may repeat a provider, and two of them may share a key. `Written` says where the walk has got to
without saying in which order, so that trees with the same providers end alike. -/

/-- No two of these providers share a key of the context without sharing the keys of the buckets. -/
def Consistent (all : List DataKeys) : Prop :=
  ∀ keys ∈ all, ∀ keys' ∈ all, keys.contextKey = keys'.contextKey → keys = keys'

/-- The writes of the providers `done`, one after the other, have led from `ctx` to `c`: each has left at its
key what it would have stored alone, and nothing else has changed. -/
structure Written (items : List Item) (ctx : Context) (done : List DataKeys) (c : Context) :
    Prop where
  own : ∀ keys ∈ done, ∃ own, Buckets.write keys ctx items = .ok own ∧
    c.value? keys.contextKey = own.value? keys.contextKey
  other : ∀ k, (∀ keys ∈ done, keys.contextKey ≠ k) → c.value? k = ctx.value? k

theorem Written.nil (items : List Item) (ctx : Context) : Written items ctx [] ctx :=
  ⟨nofun, fun _ _ => rfl⟩

/-- **One write.** The provider has either not been written so far, and then finds what the caller has at its
key, or has been written before, and then the write is a repetition. -/
theorem Written.step {done : List DataKeys} {keys : DataKeys} (hw : Written items ctx done c)
    (hcons : ∀ keys' ∈ done, keys'.contextKey = keys.contextKey → keys' = keys)
    (h : Buckets.write keys c items = .ok next) : Written items ctx (done ++ [keys]) next := by
  have hother : ∀ k, k ≠ keys.contextKey → next.value? k = c.value? k := by
    intro k hk
    obtain ⟨data, _, _, rfl⟩ := Buckets.write_eq_ok_iff.mp h
    exact Buckets.value?_commit_of_ne hk data _
  have hown : ∃ own, Buckets.write keys ctx items = .ok own ∧
      next.value? keys.contextKey = own.value? keys.contextKey := by
    by_cases hdone : ∃ keys' ∈ done, keys'.contextKey = keys.contextKey
    · -- written before, by the same provider
      obtain ⟨keys', hmem, hkey⟩ := hdone
      obtain rfl := hcons keys' hmem hkey
      obtain ⟨own, hwrite, hvalue⟩ := hw.own keys' hmem
      exact ⟨own, hwrite, Buckets.write_again hwrite hvalue h⟩
    · -- not written so far, so its key holds what it held for the caller
      exact Buckets.write_congr
        (hw.other _ fun keys' hmem hkey => hdone ⟨keys', hmem, hkey⟩) h
  constructor
  · intro keys' hmem
    rcases List.mem_append.mp hmem with hold | hnew
    · by_cases hkey : keys'.contextKey = keys.contextKey
      · obtain rfl := hcons keys' hold hkey
        exact hown
      · obtain ⟨own, hwrite, hvalue⟩ := hw.own keys' hold
        exact ⟨own, hwrite, (hother _ hkey).trans hvalue⟩
    · obtain rfl := List.mem_singleton.mp hnew
      exact hown
  · intro k hk
    have hne : k ≠ keys.contextKey := (hk keys (by simp)).symm
    rw [hother k hne]
    exact hw.other k fun keys' hmem => hk keys' (List.mem_append_left _ hmem)

/-- **The walk.** The sites that are left and those that are done are together the sites of the tree. -/
theorem Written.run {done : List DataKeys} {sites : List Site}
    (hcons : Consistent (done ++ sites.map Site.keys)) (hw : Written items ctx done c)
    (h : writeSites items c sites = .ok next) :
    Written items ctx (done ++ sites.map Site.keys) next := by
  induction sites generalizing done c with
  | nil =>
    obtain rfl := Except.ok.inj h
    simpa using hw
  | cons s rest ih =>
    have happend : done ++ (s :: rest).map Site.keys = (done ++ [s.keys]) ++ rest.map Site.keys := by
      simp
    -- the head moves from the sites to `done`, which keeps the list of all providers
    rw [happend] at hcons ⊢
    cases hs : Buckets.write s.keys c items with
    | error e =>
      rw [writeSites_cons_error hs] at h
      cases h
    | ok mid =>
      rw [writeSites_cons_ok hs] at h
      exact ih hcons (hw.step (fun keys' hmem => hcons keys' (by simp [hmem]) s.keys (by simp)) hs) h

/-- A walk whose providers can all write alone reaches the end. -/
theorem exists_writeSites_ok {sites : List Site}
    (h : ∀ s ∈ sites, ∃ own, Buckets.write s.keys ctx items = .ok own) :
    ∃ next, writeSites items ctx sites = .ok next := by
  cases hsites : sites with
  | nil => exact ⟨ctx, rfl⟩
  | cons s rest =>
    obtain ⟨own, hown⟩ := h s (by simp [hsites])
    -- one write that succeeds shows that all items can be stored, so only a read could fail
    obtain ⟨_, _, hitems, _⟩ := Buckets.write_eq_ok_iff.mp hown
    have hwalk := writeSites_of_storable hitems (SameFaults.refl ctx) (s :: rest)
    have hfault : firstFault? ctx (s :: rest) = none := by
      rw [Option.eq_none_iff_forall_ne_some]
      intro e he
      obtain ⟨s', hs', cause, hcause, _⟩ := firstFault?_cause he
      obtain ⟨own', hown'⟩ := h s' (hsites ▸ hs')
      rw [Buckets.write_of_read_error hcause] at hown'
      cases hown'
    obtain ⟨next, hnext, _⟩ := hwalk.2 hfault
    exact ⟨next, hnext⟩

/-- The order of the providers and their repetitions leave no trace. -/
theorem Written.value?_eq {done done' : List DataKeys} {c' : Context}
    (hw : Written items ctx done c) (hw' : Written items ctx done' c')
    (hsame : ∀ keys, keys ∈ done' ↔ keys ∈ done) (k : String) : c'.value? k = c.value? k := by
  -- what lies at a key that was written is said by `own`, and that does not mention the order
  by_cases hk : ∃ keys ∈ done, keys.contextKey = k
  · obtain ⟨keys, hmem, rfl⟩ := hk
    obtain ⟨own, hown, hvalue⟩ := hw.own keys hmem
    obtain ⟨own', hown', hvalue'⟩ := hw'.own keys ((hsame keys).mpr hmem)
    obtain rfl := Except.ok.inj (hown.symm.trans hown')
    rw [hvalue, hvalue']
  · rw [hw.other k fun keys hmem hkey => hk ⟨keys, hmem, hkey⟩,
      hw'.other k fun keys hmem hkey => hk ⟨keys, (hsame keys).mp hmem, hkey⟩]

/-- Providers of per-call data in the tree that share a key of the context share the keys of the buckets. -/
def SharedLayout (t : Tree) : Prop :=
  ∀ keys ∈ t.leaves, ∀ keys' ∈ t.leaves, keys.contextKey = keys'.contextKey →
    keys.inputKey = keys'.inputKey ∧ keys.requestKey = keys'.requestKey ∧
      keys.responseKey = keys'.responseKey

/-- With a shared layout, sharing the key of the context is being the same provider. -/
theorem SharedLayout.consistent {t : Tree} (h : t.SharedLayout) : Consistent t.leaves := by
  intro keys hmem keys' hmem' hkey
  obtain ⟨hinput, hrequest, hresponse⟩ := h keys hmem keys' hmem' hkey
  cases keys
  cases keys'
  simp_all

/-- A write to a tree that succeeds has written to all of its providers. -/
theorem written_of_write {t : Tree} (hcons : Consistent t.leaves)
    (h : t.provider.write ctx items = .ok next) : Written items ctx t.leaves next := by
  -- at the start nothing is done, and all sites are left
  rw [write_of_not_allFixed (not_allFixed_of_write_ok h)] at h
  exact (Written.nil items ctx).run hcons h

/-- **A write to a tree is a write to each of its providers of per-call data.** If the write succeeds, then
each of them could have written alone, and reads what it would read then; no other key has changed.
So a tree of other shape with the same providers, in another order or more than once, stores the same. -/
theorem write_eq_separate_writes (t : Tree) (hshared : t.SharedLayout) (ctx : Context)
    (items : List Item) (next : Context) (h : t.provider.write ctx items = .ok next) :
    (∀ keys ∈ t.leaves, ∃ own, (Provider.buckets keys).write ctx items = .ok own ∧
      (Provider.buckets keys).read next = (Provider.buckets keys).read own) ∧
    (∀ k, (∀ keys ∈ t.leaves, keys.contextKey ≠ k) → next.value? k = ctx.value? k) ∧
    (∀ t' : Tree, (∀ keys, keys ∈ t'.leaves ↔ keys ∈ t.leaves) → ¬ t'.AllFixed →
      ∃ next', t'.provider.write ctx items = .ok next' ∧
        ∀ k, next'.value? k = next.value? k) := by
  have hw := written_of_write hshared.consistent h
  refine ⟨fun keys hmem => ?_, hw.other, fun t' hsame hopen => ?_⟩
  · obtain ⟨own, hown, hvalue⟩ := hw.own keys hmem
    exact ⟨own, hown, Buckets.read_congr hvalue⟩
  · have hcons' : Consistent t'.leaves := fun keys hmem keys' hmem' =>
      hshared.consistent keys ((hsame keys).mp hmem) keys' ((hsame keys').mp hmem')
    obtain ⟨next', hnext'⟩ : ∃ next', writeSites items ctx t'.sites = .ok next' := by
      refine exists_writeSites_ok fun s hs => ?_
      obtain ⟨own, hown, _⟩ := hw.own s.keys ((hsame s.keys).mp (List.mem_map_of_mem hs))
      exact ⟨own, hown⟩
    rw [← write_of_not_allFixed hopen] at hnext'
    exact ⟨next', hnext', hw.value?_eq (written_of_write hcons' hnext') hsame⟩

/-- One provider is written twice, with maps that erase what the others say. -/
theorem write_eq_separate_writes_nested :
    nested.SharedLayout ∧
    ∃ next, nested.provider.write .root disagreeing = .ok next ∧
      ∃ own, (Provider.buckets .standard).write .root disagreeing = .ok own ∧
        (Provider.buckets .standard).read next = (Provider.buckets .standard).read own := by
  have hshared : nested.SharedLayout := by
    unfold SharedLayout
    decide
  obtain ⟨next, h⟩ : ∃ next, nested.provider.write .root disagreeing = .ok next := ⟨_, rfl⟩
  exact ⟨hshared, next, h,
    (write_eq_separate_writes nested hshared .root disagreeing next h).1 .standard (by decide)⟩

end Tree

end ScriptHost
