import ScriptHost.Proofs.Provider.BucketWrite
import ScriptHost.Provider.Tree

/-!
# Walking a tree of providers

A tree of providers nests layers in layers, and a read or a write recurses through them. Only the providers
of per-call data in it look at the context, so both are walks over a plain list: the `sites` of the tree,
each a provider of per-call data with the positions on the way to it.

* **`readFault?_eq`**: a tree cannot be read exactly if a site cannot, and the first such site gives the
  error.
* **`write_of_allFixed`**: a tree of fixed data refuses a write.
* **`write_of_not_allFixed`**: any other tree hands the context from site to site (`writeSites`).
-/

namespace ScriptHost

/-! ## Errors on the way out

Every layer around a provider wraps its error with a position. The positions make a path, and nothing else about
the error changes. -/

namespace ProviderFault

/-- The error as the layers around a provider report it: the positions on the way to the provider, the
outermost first. -/
def under (path : List Nat) (e : ProviderFault) : ProviderFault := path.foldr .failed e

/-- Layers do not hide what kind of error it is. -/
theorem isFixedRefusal_under (path : List Nat) (e : ProviderFault) :
    (e.under path).isFixedRefusal = e.isFixedRefusal := by
  induction path with
  | nil => rfl
  | cons position path ih => exact ih

end ProviderFault

namespace Provider

/-- What keeps a provider from being read, if anything does. -/
def readFault? (p : Provider) (ctx : Context) : Option ProviderFault :=
  match p.read ctx with
  | .ok _ => none
  | .error e => some e

theorem readFault?_eq_some_iff {p : Provider} {ctx : Context} {e : ProviderFault} :
    p.readFault? ctx = some e ↔ p.read ctx = .error e := by
  cases h : p.read ctx <;> simp [readFault?, h]

theorem readFault?_eq_none_iff {p : Provider} {ctx : Context} :
    p.readFault? ctx = none ↔ ∃ data, p.read ctx = .ok data := by
  cases h : p.read ctx <;> simp [readFault?, h]

theorem readFault?_congr {p : Provider} {c d : Context} (h : p.read c = p.read d) :
    p.readFault? c = p.readFault? d := by
  rw [readFault?, readFault?, h]

end Provider

/-! ## One step of a walk over layers

A layer answers a write in one of three ways. All that follows about walks goes through `step_cases` and
`writeAll_cons`, and none of it opens the definition of `writeAll` again. -/

namespace Layers

variable {items : List Item} {progress : Progress} {position : Nat} {p : Provider}
  {rest : List (Nat × Provider)}

/-- A layer that accepts hands its own context on. -/
theorem writeAll_accept {next : Context} (h : p.write progress.context items = .ok next) :
    writeAll items progress ((position, p) :: rest)
      = writeAll items { progress with context := next, accepted := true } rest := by
  simp only [writeAll, h]

/-- A layer that refuses is passed over, with a note. -/
theorem writeAll_refuse {e : ProviderFault} (h : p.write progress.context items = .error e)
    (he : e.isFixedRefusal = true) :
    writeAll items progress ((position, p) :: rest)
      = writeAll items { progress with refused := true } rest := by
  simp only [writeAll, h, he, if_true]

/-- A layer that fails otherwise ends the walk, under its position. -/
theorem writeAll_fail {e : ProviderFault} (h : p.write progress.context items = .error e)
    (he : e.isFixedRefusal = false) :
    writeAll items progress ((position, p) :: rest) = .error (.failed position e) := by
  simp [writeAll, h, he]

/-- What one layer makes of a write that is part way through. -/
def step (items : List Item) (progress : Progress) (l : Nat × Provider) : Except ProviderFault Progress :=
  writeAll items progress [l]

/-- **One step.** A layer accepts, or refuses, or ends the walk with its error. -/
theorem step_cases (items : List Item) (progress : Progress) (l : Nat × Provider) :
    (∃ next, l.2.write progress.context items = .ok next ∧
      step items progress l = .ok { progress with context := next, accepted := true }) ∨
    (∃ e, l.2.write progress.context items = .error e ∧ e.isFixedRefusal = true ∧
      step items progress l = .ok { progress with refused := true }) ∨
    (∃ e, l.2.write progress.context items = .error e ∧ e.isFixedRefusal = false ∧
      step items progress l = .error (.failed l.1 e)) := by
  cases h : l.2.write progress.context items with
  | ok next => exact .inl ⟨next, rfl, writeAll_accept h⟩
  | error e =>
    cases he : e.isFixedRefusal with
    | true => exact .inr (.inl ⟨e, rfl, he, writeAll_refuse h he⟩)
    | false => exact .inr (.inr ⟨e, rfl, he, writeAll_fail h he⟩)

/-- A walk is its first step, and then the walk over the others. -/
theorem writeAll_cons (items : List Item) (progress : Progress) (l : Nat × Provider)
    (rest : List (Nat × Provider)) :
    writeAll items progress (l :: rest)
      = (step items progress l).bind fun after => writeAll items after rest := by
  rcases step_cases items progress l with ⟨next, h, hstep⟩ | ⟨e, h, he, hstep⟩ | ⟨e, h, he, hstep⟩
  · rw [hstep]
    exact writeAll_accept h
  · rw [hstep]
    exact writeAll_refuse h he
  · rw [hstep]
    exact writeAll_fail h he

/-- A change of progress, positions and errors that each step goes along with changes a walk in the same
way. -/
theorem writeAll_map {f : Progress → Progress} {g : Nat × Provider → Nat × Provider}
    {r : ProviderFault → ProviderFault} {ls : List (Nat × Provider)}
    (h : ∀ l ∈ ls, ∀ progress,
      step items (f progress) (g l) = ((step items progress l).map f).mapError r)
    (progress : Progress) :
    writeAll items (f progress) (ls.map g) = ((writeAll items progress ls).map f).mapError r := by
  induction ls generalizing progress with
  | nil => rfl
  | cons l rest ih =>
    have hrest := ih fun l' hl' => h l' (List.mem_cons_of_mem _ hl')
    rw [List.map_cons, writeAll_cons, writeAll_cons, h l List.mem_cons_self]
    cases step items progress l with
    | error e => rfl
    | ok after => exact hrest after

theorem write_of_writeAll_error {layers : Layers} {ctx : Context} {e : ProviderFault}
    (h : writeAll items ⟨ctx, false, false⟩ (active layers) = .error e) :
    write layers ctx items = .error e := by
  simp only [write, h]

/-- A walk that reaches the end is judged by its notes. -/
theorem write_of_writeAll_ok {layers : Layers} {ctx : Context} {q : Progress}
    (h : writeAll items ⟨ctx, false, false⟩ (active layers) = .ok q) :
    write layers ctx items
      = if !q.accepted && q.refused then .error .fixedData else .ok q.context := by
  simp only [write, h]

/-- The first layer that cannot be read gives the error. -/
theorem readFault?_layered (layers : Layers) (ctx : Context) :
    (Provider.layered layers).readFault? ctx
      = (active layers).findSome? fun l => (l.2.readFault? ctx).map (.failed l.1) := by
  have hall : ∀ ls : List (Nat × Provider),
      (match readAll ctx ls with
        | .ok _ => none
        | .error e => some e)
      = ls.findSome? fun l => (l.2.readFault? ctx).map (ProviderFault.failed l.1) := by
    intro ls
    induction ls with
    | nil => rfl
    | cons l ls ih =>
      -- an error of the head ends the read, so the rest matters only after a success
      rw [readAll, List.findSome?_cons, Provider.readFault?, ← ih]
      cases l.2.read ctx with
      | error e => rfl
      | ok data => cases readAll ctx ls <;> rfl
  rw [← hall, Provider.readFault?]
  show (match read layers ctx with | .ok _ => none | .error e => some e) = _
  rw [read]
  cases readAll ctx (active layers) <;> rfl

end Layers

namespace Tree

/-- Induction over trees: for layers, the layers that are no gaps may be assumed. -/
@[elab_as_elim, induction_eliminator]
theorem induct {motive : Tree → Prop} (fixed : ∀ data, motive (.fixed data))
    (buckets : ∀ keys, motive (.buckets keys))
    (layered : ∀ layers : List (Option Tree), (∀ t, some t ∈ layers → motive t) →
      motive (.layered layers)) : ∀ t, motive t
  | .fixed data => fixed data
  | .buckets keys => buckets keys
  | .layered layers => layered layers fun t _ => induct fixed buckets layered t
termination_by t => sizeOf t
decreasing_by
  have hmem := List.sizeOf_lt_of_mem ‹some t ∈ layers›
  rw [Option.some.sizeOf_spec] at hmem
  rw [Tree.layered.sizeOf_spec]
  omega

/-! ## Shapes

Two things are read off the shape of a tree: whether it is fixed data throughout, and where its providers of
per-call data are. -/

/-- Fixed data throughout: fixed data itself, or layers that are not all gaps and in turn fixed data. -/
inductive AllFixed : Tree → Prop where
  | fixed (data : DataMap) : AllFixed (.fixed data)
  | layered {layers : List (Option Tree)} (some_layer : ∃ t, some t ∈ layers)
      (each : ∀ t, some t ∈ layers → AllFixed t) : AllFixed (.layered layers)

theorem not_allFixed_buckets (keys : DataKeys) : ¬ AllFixed (.buckets keys) := nofun

/-- Layers are fixed data if some layer is there and each of them is fixed. Gaps alone are not, and take every
write. -/
theorem allFixed_layered_iff {layers : List (Option Tree)} :
    AllFixed (.layered layers) ↔
      (∃ t, some t ∈ layers) ∧ ∀ t, some t ∈ layers → AllFixed t := by
  constructor
  · rintro (_ | ⟨hsome, heach⟩)
    exact ⟨hsome, heach⟩
  · rintro ⟨hsome, heach⟩
    exact .layered hsome heach

/-- A provider of per-call data in a tree, with the positions on the way to it. -/
structure Site where
  path : List Nat
  keys : DataKeys

def Site.under (position : Nat) (s : Site) : Site := { s with path := position :: s.path }

mutual

/-- The providers of per-call data in a tree, from the first to the last. -/
def sites : Tree → List Site
  | .fixed _ => []
  | .buckets keys => [⟨[], keys⟩]
  | .layered layers => sitesFrom 0 layers

def sitesFrom (start : Nat) : List (Option Tree) → List Site
  | [] => []
  | none :: rest => sitesFrom (start + 1) rest
  | some t :: rest => t.sites.map (.under start) ++ sitesFrom (start + 1) rest

end

/-- The keys of the providers of per-call data in a tree, with repetitions. -/
def leaves (t : Tree) : List DataKeys := t.sites.map Site.keys

/-- Layers of trees without sites have none either. -/
theorem sitesFrom_eq_nil {start : Nat} {layers : List (Option Tree)}
    (h : ∀ t, some t ∈ layers → t.sites = []) : sitesFrom start layers = [] := by
  induction layers generalizing start with
  | nil => rfl
  | cons layer rest ih =>
    have hrest : sitesFrom (start + 1) rest = [] := ih fun t ht => h t (List.mem_cons_of_mem _ ht)
    cases layer with
    | none => exact hrest
    | some t => rw [sitesFrom, h t List.mem_cons_self, hrest]; rfl

/-- Fixed data has no site. -/
theorem AllFixed.sites_eq_nil {t : Tree} (h : t.AllFixed) : t.sites = [] := by
  induction h with
  | fixed data => rfl
  | layered _ _ ih => exact sitesFrom_eq_nil ih

/-! ## Reading a tree

Fixed data can always be read, so only a site can keep a tree from being read. The order of the sites is the
order in which the layers are read. -/

/-- What keeps a site from being read, as the whole tree reports it. -/
def Site.fault? (ctx : Context) (s : Site) : Option ProviderFault :=
  ((Provider.buckets s.keys).readFault? ctx).map (.under s.path)

theorem Site.fault?_under (ctx : Context) (position : Nat) (s : Site) :
    (s.under position).fault? ctx = (s.fault? ctx).map (.failed position) := by
  rw [Site.fault?, Site.fault?, Option.map_map]
  rfl

def firstFault? (ctx : Context) (sites : List Site) : Option ProviderFault :=
  sites.findSome? (Site.fault? ctx)

theorem firstFault?_append (ctx : Context) (sites more : List Site) :
    firstFault? ctx (sites ++ more) = (firstFault? ctx sites).or (firstFault? ctx more) :=
  List.findSome?_append

/-- Around a list of sites a layer adds its position to the first fault. -/
theorem firstFault?_under (ctx : Context) (position : Nat) (sites : List Site) :
    firstFault? ctx (sites.map (.under position))
      = (firstFault? ctx sites).map (.failed position) := by
  rw [firstFault?, firstFault?, List.findSome?_map, List.map_findSome?]
  congr 1
  funext s
  exact s.fault?_under ctx position

/-- For layers, the first fault of a layer is the first fault of a site. By induction on the layers; the trees
in them are known by assumption. -/
theorem findSome?_providers {ctx : Context} {layers : List (Option Tree)}
    (ih : ∀ t, some t ∈ layers → t.provider.readFault? ctx = firstFault? ctx t.sites) (start : Nat) :
    ((Layers.activeFrom start (providers layers)).findSome? fun l =>
        (l.2.readFault? ctx).map (ProviderFault.failed l.1))
      = firstFault? ctx (sitesFrom start layers) := by
  induction layers generalizing start with
  | nil => rfl
  | cons layer rest ihl =>
    have hrest := ihl (fun t ht => ih t (List.mem_cons_of_mem _ ht)) (start + 1)
    cases layer with
    | none => exact hrest
    | some t =>
      -- the sites of the first layer come before those of the rest, on both sides
      rw [providers, Layers.activeFrom, List.findSome?_cons, hrest, sitesFrom, firstFault?_append,
        firstFault?_under, ih t List.mem_cons_self]
      cases (firstFault? ctx t.sites).map (ProviderFault.failed start) <;> rfl

/-- **Reading is a walk over the sites.** What keeps a tree from being read is the first error of a site. -/
theorem readFault?_eq (t : Tree) (ctx : Context) :
    t.provider.readFault? ctx = firstFault? ctx t.sites := by
  induction t with
  | fixed data => rfl
  | buckets keys =>
    rw [sites, firstFault?, List.findSome?_singleton, Site.fault?, provider]
    cases (Provider.buckets keys).readFault? ctx <;> rfl
  | layered layers ih =>
    rw [provider, Layers.readFault?_layered]
    exact findSome?_providers ih 0

/-! ## Writing to a tree

The walk over the layers keeps notes that the walk over the sites does not have. `Passed` says what the notes
mean in terms of the shape, and `Agrees` compares the two walks at every point; so the verdict on the notes
comes out as a condition on the shape. -/

/-- Hands the context from site to site, each of which writes all items into it. -/
def writeSites (items : List Item) : Context → List Site → Except ProviderFault Context
  | ctx, [] => .ok ctx
  | ctx, s :: rest =>
    match Buckets.write s.keys ctx items with
    | .ok next => writeSites items next rest
    | .error e => .error (e.under s.path)

variable {items : List Item} {ctx : Context}

theorem writeSites_cons_ok {s : Site} {next : Context} (h : Buckets.write s.keys ctx items = .ok next)
    (rest : List Site) : writeSites items ctx (s :: rest) = writeSites items next rest := by
  simp only [writeSites, h]

/-- A site that fails ends the walk, and its error gets the positions on the way to it. -/
theorem writeSites_cons_error {s : Site} {e : ProviderFault}
    (h : Buckets.write s.keys ctx items = .error e) (rest : List Site) :
    writeSites items ctx (s :: rest) = .error (e.under s.path) := by
  simp only [writeSites, h]

/-- Further sites go on from the context that the first ones have reached. -/
theorem writeSites_append_ok {sites : List Site} {next : Context}
    (h : writeSites items ctx sites = .ok next) (more : List Site) :
    writeSites items ctx (sites ++ more) = writeSites items next more := by
  induction sites generalizing ctx with
  | nil =>
    obtain rfl := Except.ok.inj h
    rfl
  | cons s rest ih =>
    -- the walk has reached its end, so no site on the way can have failed
    cases hs : Buckets.write s.keys ctx items with
    | error e => rw [writeSites_cons_error hs] at h; cases h
    | ok mid =>
      rw [writeSites_cons_ok hs] at h
      rw [List.cons_append, writeSites_cons_ok hs, ih h]

/-- Further sites are not reached after an error. -/
theorem writeSites_append_error {sites : List Site} {e : ProviderFault}
    (h : writeSites items ctx sites = .error e) (more : List Site) :
    writeSites items ctx (sites ++ more) = .error e := by
  induction sites generalizing ctx with
  | nil => cases h
  | cons s rest ih =>
    cases hs : Buckets.write s.keys ctx items with
    | error e' =>
      rw [writeSites_cons_error hs] at h
      rw [List.cons_append, writeSites_cons_error hs, h]
    | ok mid =>
      rw [writeSites_cons_ok hs] at h
      rw [List.cons_append, writeSites_cons_ok hs, ih h]

/-- A layer around the sites adds its position to their error, and does nothing else. -/
theorem writeSites_under (items : List Item) (ctx : Context) (position : Nat) (sites : List Site) :
    writeSites items ctx (sites.map (.under position))
      = (writeSites items ctx sites).mapError (.failed position) := by
  induction sites generalizing ctx with
  | nil => rfl
  | cons s rest ih =>
    rw [List.map_cons]
    cases hs : Buckets.write s.keys ctx items with
    | error e =>
      rw [writeSites_cons_error hs, writeSites_cons_error (s := s.under position) hs]
      rfl
    | ok mid => rw [writeSites_cons_ok hs, writeSites_cons_ok (s := s.under position) hs, ih]

/-- No error of a site is a refusal by fixed data. -/
theorem writeSites_error_not_refusal {sites : List Site} {e : ProviderFault}
    (h : writeSites items ctx sites = .error e) : e.isFixedRefusal = false := by
  induction sites generalizing ctx with
  | nil => cases h
  | cons s rest ih =>
    cases hs : Buckets.write s.keys ctx items with
    | error e' =>
      rw [writeSites_cons_error hs] at h
      obtain rfl := Except.error.inj h
      rw [ProviderFault.isFixedRefusal_under]
      exact Buckets.write_error_not_refusal hs
    | ok mid =>
      rw [writeSites_cons_ok hs] at h
      exact ih h

/-- How a tree takes a write: it refuses, or hands the context through its sites. -/
structure WalksSites (t : Tree) : Prop where
  refuses : t.AllFixed → ∀ ctx items, t.provider.write ctx items = .error .fixedData
  walks : ¬ t.AllFixed → ∀ ctx items, t.provider.write ctx items = writeSites items ctx t.sites

/-- What a walk over layers leaves behind: the context of the walk over the sites, and a note of
whether there was a layer that takes writes, and one that refuses them. -/
structure Passed (layers : List (Option Tree)) (before after : Layers.Progress) (next : Context) :
    Prop where
  context : after.context = next
  accepted : after.accepted = true ↔
    before.accepted = true ∨ ∃ t, some t ∈ layers ∧ ¬ t.AllFixed
  refused : after.refused = true ↔ before.refused = true ∨ ∃ t, some t ∈ layers ∧ t.AllFixed

/-- A gap changes nothing. -/
theorem Passed.after_gap {rest : List (Option Tree)} {before after : Layers.Progress} {next : Context}
    (hp : Passed rest before after next) : Passed (none :: rest) before after next := by
  refine ⟨hp.context, ?_, ?_⟩
  · simpa using hp.accepted
  · simpa using hp.refused

/-- A layer of fixed data adds a note, and there is a fixed layer to show for it. -/
theorem Passed.after_refusal {t : Tree} {rest : List (Option Tree)} {before after : Layers.Progress}
    {next : Context} (ht : t.AllFixed) (hp : Passed rest { before with refused := true } after next) :
    Passed (some t :: rest) before after next := by
  refine ⟨hp.context, ?_, ?_⟩
  · rw [hp.accepted]
    simp [ht]
  · rw [hp.refused]
    simp [ht]

/-- Any other layer that is passed has accepted. -/
theorem Passed.after_acceptance {t : Tree} {rest : List (Option Tree)} {before after : Layers.Progress}
    {mid next : Context} (ht : ¬ t.AllFixed)
    (hp : Passed rest { before with context := mid, accepted := true } after next) :
    Passed (some t :: rest) before after next := by
  refine ⟨hp.context, ?_, ?_⟩
  · rw [hp.accepted]
    simp [ht]
  · rw [hp.refused]
    simp [ht]

/-- A walk over layers ends as the walk over their sites does. -/
def Agrees (layers : List (Option Tree)) (before : Layers.Progress) :
    Except ProviderFault Layers.Progress → Except ProviderFault Context → Prop
  | .error e, .error e' => e = e'
  | .ok after, .ok next => Passed layers before after next
  | _, _ => False

/-- Agreement carries over from some layers to more of them if what has been passed does. An error is the same
error for both. -/
theorem Agrees.mono {layers layers' : List (Option Tree)} {before before' : Layers.Progress}
    {x : Except ProviderFault Layers.Progress} {y : Except ProviderFault Context}
    (h : Agrees layers before x y)
    (hpassed : ∀ after next, Passed layers before after next → Passed layers' before' after next) :
    Agrees layers' before' x y := by
  cases x with
  | error e =>
    cases y with
    | error e' => exact h
    | ok next => exact h.elim
  | ok after =>
    cases y with
    | error e' => exact h.elim
    | ok next => exact hpassed after next h

/-- Where the walk over the sites fails, the walk over the layers fails in the same way. -/
theorem Agrees.of_error {layers : List (Option Tree)} {before : Layers.Progress}
    {x : Except ProviderFault Layers.Progress} {e : ProviderFault}
    (h : Agrees layers before x (.error e)) : x = .error e := by
  cases x with
  | error e' => exact congrArg _ h
  | ok after => exact h.elim

/-- Where the walk over the sites reaches the end, so does the walk over the layers. -/
theorem Agrees.of_ok {layers : List (Option Tree)} {before : Layers.Progress}
    {x : Except ProviderFault Layers.Progress} {next : Context}
    (h : Agrees layers before x (.ok next)) : ∃ after, x = .ok after ∧ Passed layers before after next := by
  cases x with
  | error e => exact h.elim
  | ok after => exact ⟨after, rfl, h⟩

/-- **The two walks agree.** The induction is on the layers; the walk over the sites may already have stored
something. -/
theorem writeAll_agrees {layers : List (Option Tree)} (ih : ∀ t, some t ∈ layers → t.WalksSites)
    (items : List Item) (before : Layers.Progress) (start : Nat) :
    Agrees layers before
      (Layers.writeAll items before (Layers.activeFrom start (providers layers)))
      (writeSites items before.context (sitesFrom start layers)) := by
  induction layers generalizing before start with
  | nil => exact ⟨rfl, by simp, by simp⟩
  | cons layer rest ihl =>
    have hrest := fun before =>
      ihl (fun t ht => ih t (List.mem_cons_of_mem _ ht)) before (start + 1)
    cases layer with
    | none => exact (hrest before).mono fun _ _ hp => hp.after_gap
    | some t =>
      have hwalks := ih t List.mem_cons_self
      rw [providers, Layers.activeFrom, sitesFrom]
      by_cases ht : t.AllFixed
      · -- the layer refuses, and it has no sites
        rw [ht.sites_eq_nil, List.map_nil, List.nil_append,
          Layers.writeAll_refuse (hwalks.refuses ht _ _) rfl]
        exact (hrest { before with refused := true }).mono fun _ _ hp => hp.after_refusal ht
      · -- the layer is a walk over its sites, and an error of theirs is no refusal to step over
        have hwrite := hwalks.walks ht before.context items
        have hunder := writeSites_under items before.context start t.sites
        cases hsites : writeSites items before.context t.sites with
        | error e =>
          rw [hsites] at hwrite hunder
          rw [Layers.writeAll_fail hwrite (writeSites_error_not_refusal hsites),
            writeSites_append_error hunder]
          rfl
        | ok mid =>
          rw [hsites] at hwrite hunder
          rw [Layers.writeAll_accept hwrite, writeSites_append_ok hunder]
          exact (hrest { before with context := mid, accepted := true }).mono
            fun _ _ hp => hp.after_acceptance ht

/-- Layers of fixed data are refused in the end. -/
theorem Passed.of_allFixed {layers : List (Option Tree)} {ctx next : Context}
    {after : Layers.Progress} (hp : Passed layers ⟨ctx, false, false⟩ after next)
    (h : AllFixed (.layered layers)) : (!after.accepted && after.refused) = true := by
  -- no layer takes the write, and there is one to refuse it
  obtain ⟨⟨t, ht⟩, heach⟩ := allFixed_layered_iff.mp h
  have haccepted : ¬ after.accepted = true := by
    rw [hp.accepted]
    rintro (hfalse | ⟨u, hu, hopen⟩)
    · cases hfalse
    · exact hopen (heach u hu)
  have hrefused : after.refused = true := hp.refused.mpr (.inr ⟨t, ht, heach t ht⟩)
  simp [haccepted, hrefused]

/-- Other layers are not: either some layer has accepted, or there is none to refuse. -/
theorem Passed.of_not_allFixed {layers : List (Option Tree)} {ctx next : Context}
    {after : Layers.Progress} (hp : Passed layers ⟨ctx, false, false⟩ after next)
    (h : ¬ AllFixed (.layered layers)) : (!after.accepted && after.refused) = false := by
  by_cases haccepted : after.accepted = true
  · simp [haccepted]
  · -- a layer that refuses would leave only fixed data, since none has accepted
    have hrefused : ¬ after.refused = true := by
      rw [hp.refused]
      rintro (hfalse | ⟨t, ht, _⟩)
      · cases hfalse
      · refine h (.layered ⟨t, ht⟩ fun u hu => ?_)
        by_contra hopen
        exact haccepted (hp.accepted.mpr (.inr ⟨u, hu, hopen⟩))
    simp [hrefused]

/-- **Every tree takes writes so.** By induction on the tree; for layers the walk over them is compared with
that over the sites, and the notes with the shape. -/
theorem walksSites (t : Tree) : t.WalksSites := by
  induction t with
  | fixed data =>
    exact ⟨fun _ _ _ => rfl, fun h => absurd (.fixed data) h⟩
  | buckets keys =>
    refine ⟨fun h => absurd h (not_allFixed_buckets keys), fun _ ctx items => ?_⟩
    rw [provider, sites, writeSites]
    show Buckets.write keys ctx items = _
    cases Buckets.write keys ctx items <;> rfl
  | layered layers ih =>
    have hagrees := fun ctx items => writeAll_agrees ih items ⟨ctx, false, false⟩ 0
    constructor
    · intro hfixed ctx items
      have hag := hagrees ctx items
      -- without sites the walk cannot fail, so the verdict is that of the notes
      rw [show sitesFrom 0 layers = [] from hfixed.sites_eq_nil] at hag
      obtain ⟨after, hafter, hp⟩ := hag.of_ok
      show Layers.write (providers layers) ctx items = _
      rw [Layers.write_of_writeAll_ok hafter, hp.of_allFixed hfixed]
      rfl
    · intro hopen ctx items
      have hag := hagrees ctx items
      rw [sites]
      show Layers.write (providers layers) ctx items = _
      cases hsites : writeSites items ctx (sitesFrom 0 layers) with
      | error e =>
        rw [hsites] at hag
        exact Layers.write_of_writeAll_error hag.of_error
      | ok next =>
        rw [hsites] at hag
        obtain ⟨after, hafter, hp⟩ := hag.of_ok
        -- not every layer refuses, so the verdict lets the context through
        rw [Layers.write_of_writeAll_ok hafter, hp.of_not_allFixed hopen, hp.context]
        rfl

/-- **Refusal.** A tree of fixed data refuses every write, and the refusal is not wrapped. -/
theorem write_of_allFixed {t : Tree} (h : t.AllFixed) (ctx : Context) (items : List Item) :
    t.provider.write ctx items = .error .fixedData :=
  t.walksSites.refuses h ctx items

/-- **Writing is a walk over the sites** for every other tree. -/
theorem write_of_not_allFixed {t : Tree} (h : ¬ t.AllFixed) (ctx : Context) (items : List Item) :
    t.provider.write ctx items = writeSites items ctx t.sites :=
  t.walksSites.walks h ctx items

end Tree

end ScriptHost
