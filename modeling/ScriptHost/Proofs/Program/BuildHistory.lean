import ScriptHost.Proofs.Program.DraftCalls

/-!
# Builds and their histories

What a build comes to is read off the last values that the calls of its history have set. `Builds` has one
case for each way in which a build can end, in the order in which the causes are looked at; exactly one of
them applies (`Draft.build_eq_iff`).

A script that is given as text reaches the compiler as the bytes of the text, and two texts with the same
bytes are the same (`Utf8.ofString_inj`). A compiler that keeps what it reads thus gives back the very text,
and the id that is derived from it can be foretold. `Draft.build_of_last_calls` has it all together.
-/

namespace ScriptHost

open DraftStep

variable {β π : Type}

/-! ## How a build ends

The parts are looked at in a fixed order, and each is needed before the next is asked for; nothing is opened
before all are there. `Builds` has the same order in its cases. -/

/-- The parts that a history has set last, with none missing. -/
structure Parts (steps : List (DraftStep β π)) (loader : Loader) (compiler : Compiler β)
    (provider : π) : Prop where
  loader : last? setLoader? steps = some loader
  compiler : last? setCompiler? steps = some compiler
  provider : last? setProvider? steps = some provider

/-- How a build ends after a history of calls. A program has the id that was assigned last, or the one that is
derived from its source if that is empty or there is none. -/
inductive Builds (disk : Disk) (steps : List (DraftStep β π)) :
    Except BuildFault (Program β π) → Prop
  | missingLoader :
      last? setLoader? steps = none →
      Builds disk steps (.error .missingLoader)
  | missingCompiler {loader : Loader} :
      last? setLoader? steps = some loader → last? setCompiler? steps = none →
      Builds disk steps (.error .missingCompiler)
  | missingProvider {loader : Loader} {compiler : Compiler β} :
      last? setLoader? steps = some loader → last? setCompiler? steps = some compiler →
      last? setProvider? steps = none →
      Builds disk steps (.error .missingProvider)
  | unopened {loader : Loader} {compiler : Compiler β} {provider : π} {e : LoadFault} :
      Parts steps loader compiler provider → loader.reader disk = .error e →
      Builds disk steps (.error (.loader e))
  | uncompiled {loader : Loader} {compiler : Compiler β} {provider : π} {stream : Stream}
      {e : CompileFault} :
      Parts steps loader compiler provider → loader.reader disk = .ok stream →
      compiler stream = .error e →
      Builds disk steps (.error (.compile e))
  | named {loader : Loader} {compiler : Compiler β} {provider : π} {stream : Stream}
      {content : Content β} {id : String} :
      Parts steps loader compiler provider → loader.reader disk = .ok stream →
      compiler stream = .ok content → last? setId? steps = some id → id ≠ "" →
      Builds disk steps (.ok ⟨id, loader, compiler, content, provider⟩)
  | unnamed {loader : Loader} {compiler : Compiler β} {provider : π} {stream : Stream}
      {content : Content β} :
      Parts steps loader compiler provider → loader.reader disk = .ok stream →
      compiler stream = .ok content → (∀ id ∈ last? setId? steps, id = "") →
      Builds disk steps (.ok ⟨sourceId content.source, loader, compiler, content, provider⟩)

namespace Draft

theorem compile_of_error {disk : Disk} {loader : Loader} {e : LoadFault}
    (h : loader.reader disk = .error e) (compiler : Compiler β) :
    compile disk loader compiler = .error (.loader e) := by
  rw [compile, h]

/-- An opened script goes to the compiler, whose fault becomes that of the build. -/
theorem compile_of_ok {disk : Disk} {loader : Loader} {stream : Stream}
    (h : loader.reader disk = .ok stream) (compiler : Compiler β) :
    compile disk loader compiler = (compiler stream).mapError .compile := by
  rw [compile, h]

theorem idFor_of_named {steps : List (DraftStep β π)} {id : String}
    (h : last? setId? steps = some id) (hne : id ≠ "") (source : String) :
    (ofSteps steps).idFor source = id := by
  simp [ofSteps_eq, idFor, h, hne]

/-- An empty id counts as none, and the source gives the id. -/
theorem idFor_of_unnamed {steps : List (DraftStep β π)} (h : ∀ id ∈ last? setId? steps, id = "")
    (source : String) : (ofSteps steps).idFor source = sourceId source := by
  rw [ofSteps_eq]
  cases hset : last? setId? steps with
  | none => rfl
  | some id => simp [idFor, h id hset]

/-- With all parts there, the build is up to the loader and the compiler. -/
theorem build_of_parts {steps : List (DraftStep β π)} {loader : Loader} {compiler : Compiler β}
    {provider : π} (h : Parts steps loader compiler provider) (disk : Disk) :
    (ofSteps steps).build disk = (compile disk loader compiler).map fun content =>
      ⟨(ofSteps steps).idFor content.source, loader, compiler, content, provider⟩ := by
  rw [ofSteps_eq, h.loader, h.compiler, h.provider]
  simp only [build]
  cases compile disk loader compiler <;> rfl

/-- A compiled script becomes a program, whose id is the only thing left to settle. -/
theorem builds_of_compiled {disk : Disk} {steps : List (DraftStep β π)} {loader : Loader}
    {compiler : Compiler β} {provider : π} {stream : Stream} {content : Content β}
    (hparts : Parts steps loader compiler provider) (hopened : loader.reader disk = .ok stream)
    (hcompiled : compiler stream = .ok content) :
    Builds disk steps
      (.ok ⟨(ofSteps steps).idFor content.source, loader, compiler, content, provider⟩) := by
  -- an empty id is as good as none
  by_cases hunnamed : ∀ id ∈ last? setId? steps, id = ""
  · rw [idFor_of_unnamed hunnamed]
    exact .unnamed hparts hopened hcompiled hunnamed
  · push Not at hunnamed
    obtain ⟨id, hset, hne⟩ := hunnamed
    rw [idFor_of_named hset hne]
    exact .named hparts hopened hcompiled hset hne

/-- Every build ends in one of the ways. -/
theorem builds_build (disk : Disk) (steps : List (DraftStep β π)) :
    Builds disk steps ((ofSteps steps).build disk) := by
  -- the parts in the order in which a build asks for them
  cases hloader : last? setLoader? steps with
  | none => simpa [ofSteps_eq, build, hloader] using Builds.missingLoader hloader
  | some l =>
    cases hcompiler : last? setCompiler? steps with
    | none =>
      simpa [ofSteps_eq, build, hloader, hcompiler] using Builds.missingCompiler hloader hcompiler
    | some c =>
      cases hprovider : last? setProvider? steps with
      | none =>
        simpa [ofSteps_eq, build, hloader, hcompiler, hprovider] using
          Builds.missingProvider hloader hcompiler hprovider
      | some p =>
        have hparts : Parts steps l c p := ⟨hloader, hcompiler, hprovider⟩
        rw [build_of_parts hparts]
        cases hopened : l.reader disk with
        | error e =>
          rw [compile_of_error hopened]
          exact .unopened hparts hopened
        | ok stream =>
          rw [compile_of_ok hopened]
          cases hcompiled : c stream with
          | error e => exact .uncompiled hparts hopened hcompiled
          | ok content => exact builds_of_compiled hparts hopened hcompiled

/-- A build ends in one way only. -/
theorem build_of_builds {disk : Disk} {steps : List (DraftStep β π)}
    {outcome : Except BuildFault (Program β π)} (h : Builds disk steps outcome) :
    (ofSteps steps).build disk = outcome := by
  cases h with
  | missingLoader hloader => rw [ofSteps_eq, hloader]; rfl
  | missingCompiler hloader hcompiler => rw [ofSteps_eq, hloader, hcompiler]; rfl
  | missingProvider hloader hcompiler hprovider => rw [ofSteps_eq, hloader, hcompiler, hprovider]; rfl
  | unopened hparts hopened => rw [build_of_parts hparts, compile_of_error hopened]; rfl
  | uncompiled hparts hopened hcompiled =>
    rw [build_of_parts hparts, compile_of_ok hopened, hcompiled]; rfl
  | named hparts hopened hcompiled hset hne =>
    rw [build_of_parts hparts, compile_of_ok hopened, hcompiled, ← idFor_of_named hset hne]; rfl
  | unnamed hparts hopened hcompiled hunnamed =>
    rw [build_of_parts hparts, compile_of_ok hopened, hcompiled, ← idFor_of_unnamed hunnamed]; rfl

/-- **How a build ends**, both ways: the cases of `Builds` leave nothing out, and no two of them apply at once. -/
theorem build_eq_iff {disk : Disk} {steps : List (DraftStep β π)}
    {outcome : Except BuildFault (Program β π)} :
    (ofSteps steps).build disk = outcome ↔ Builds disk steps outcome :=
  ⟨fun h => h ▸ builds_build disk steps, build_of_builds⟩

end Draft

/-! ## Scripts that are given as text

The reader of such a loader does not look at the disk. What the compiler makes of the bytes is its own affair,
so the promise to keep them is a hypothesis here (`Compiler.KeepsSource`). -/

/-- A script that is given as text is opened as the bytes of the text, on every disk. -/
theorem Loader.reader_of_ofText {source : String} {loader : Loader}
    (h : Loader.ofText source = .ok loader) (disk : Disk) :
    loader.reader disk = .ok (.ok (Utf8.ofString source)) := by
  unfold Loader.ofText at h
  split at h
  · cases h
  · cases h
    rfl

/-- The source of the content that a compiler makes is the text that it has read. -/
def Compiler.KeepsSource (compiler : Compiler β) : Prop :=
  ∀ bytes content, compiler (.ok bytes) = .ok content → Utf8.ofString content.source = bytes

namespace Draft

/-- What a program was built from. -/
theorem content_of_build {disk : Disk} {steps : List (DraftStep β π)} {program : Program β π}
    (hbuilt : (ofSteps steps).build disk = .ok program) :
    ∃ stream, Parts steps program.loader program.compiler program.provider ∧
      program.loader.reader disk = .ok stream ∧ program.compiler stream = .ok program.content := by
  cases build_eq_iff.1 hbuilt with
  | named hparts hopened hcompiled => exact ⟨_, hparts, hopened, hcompiled⟩
  | unnamed hparts hopened hcompiled => exact ⟨_, hparts, hopened, hcompiled⟩

/-- A program without an assigned id is named after the source that its compiler kept. -/
theorem id_of_build {disk : Disk} {steps : List (DraftStep β π)} {program : Program β π}
    (hbuilt : (ofSteps steps).build disk = .ok program)
    (hunnamed : ∀ id ∈ last? setId? steps, id = "") :
    program.id = sourceId program.content.source := by
  cases build_eq_iff.1 hbuilt with
  | named _ _ _ hset hne => exact absurd (hunnamed _ hset) hne
  | unnamed => rfl

/-- A compiler that keeps the bytes it reads keeps the text, since no other text has these bytes. -/
theorem source_of_build {disk : Disk} {steps : List (DraftStep β π)} {source : String}
    {loader : Loader} {compiler : Compiler β} {program : Program β π}
    (htext : Loader.ofText source = .ok loader) (hloads : last? setLoader? steps = some loader)
    (hcompiles : last? setCompiler? steps = some compiler) (hkeeps : compiler.KeepsSource)
    (hbuilt : (ofSteps steps).build disk = .ok program) : program.content.source = source := by
  obtain ⟨stream, hparts, hopened, hcompiled⟩ := content_of_build hbuilt
  obtain rfl := Option.some.inj (hparts.loader.symm.trans hloads)
  obtain rfl := Option.some.inj (hparts.compiler.symm.trans hcompiles)
  -- the compiler has read the bytes of the text
  rw [Loader.reader_of_ofText htext, Except.ok.injEq] at hopened
  exact Utf8.ofString_inj.1 (hkeeps _ _ (hopened ▸ hcompiled))

/-- **A build is determined by the last calls.** Histories with the same last loader, compiler, provider and
assigned id build the same on every disk. Neighbouring calls can change places exactly if they do not give one
part two different values, so always if they set different parts; an id and a configuration can unless the
configuration has another id, and a configuration without an id can be left out. The build ends in the first way
of `Builds` that applies. With a script that is given as text and a compiler that keeps what it reads, the
program has that text as its source, and is named after it unless an id is assigned. -/
theorem build_of_last_calls :
    (∀ steps others : List (DraftStep β π), SameLast steps others → ∀ disk,
      (ofSteps steps).build disk = (ofSteps others).build disk) ∧
    (∀ a b : DraftStep β π, Compatible a b ↔
      ∀ front rest, ofSteps (front ++ a :: b :: rest) = ofSteps (front ++ b :: a :: rest)) ∧
    (∀ a b : DraftStep β π, a.part ≠ b.part → Compatible a b) ∧
    (∀ (name : String) (config : HostConfig),
      Compatible (.id name : DraftStep β π) (.config config) ↔ ∀ id ∈ config.scriptId?, name = id) ∧
    (∀ config : HostConfig, config.scriptId? = none → ∀ front rest : List (DraftStep β π),
      ofSteps (front ++ .config config :: rest) = ofSteps (front ++ rest)) ∧
    (∀ (disk : Disk) (steps : List (DraftStep β π)) (outcome : Except BuildFault (Program β π)),
      (ofSteps steps).build disk = outcome ↔ Builds disk steps outcome) ∧
    (∀ (source : String) (loader : Loader) (compiler : Compiler β),
      Loader.ofText source = .ok loader → compiler.KeepsSource →
      ∀ (disk : Disk) (steps : List (DraftStep β π)) (program : Program β π),
        last? setLoader? steps = some loader → last? setCompiler? steps = some compiler →
        (ofSteps steps).build disk = .ok program →
          program.content.source = source ∧
            ((∀ id ∈ last? setId? steps, id = "") → program.id = sourceId source)) := by
  refine ⟨fun steps others hsame disk => by rw [ofSteps_congr hsame], fun a b => ofSteps_swap_iff.symm,
    fun a b => compatible_of_part_ne, fun name config => compatible_id_config_iff,
    fun config => ofSteps_config, fun disk steps outcome => build_eq_iff, ?_⟩
  intro source loader compiler htext hkeeps disk steps program hloads hcompiles hbuilt
  have hkept := source_of_build htext hloads hcompiles hkeeps hbuilt
  refine ⟨hkept, fun hunnamed => ?_⟩
  rw [id_of_build hbuilt hunnamed, hkept]

/-- A compiler for text of any kind, which refuses bytes that are not the bytes of a text. -/
def strictText (machine : Machine) : Compiler Unit
  | .error fault => .error (.unread fault)
  | .ok bytes =>
    let text := Utf8.decodeLossy bytes
    if Utf8.ofString text = bytes then .ok ⟨text, (), machine⟩ else .error (.unread .notUtf8)

/-- It accepts bytes only where its source has the same ones. -/
theorem keepsSource_strictText (machine : Machine) : (strictText machine).KeepsSource := by
  intro bytes content hcompiled
  simp only [strictText] at hcompiled
  split at hcompiled
  · next hsame =>
    cases hcompiled
    exact hsame
  · cases hcompiled

/-- A text with a blank in front and a line feed behind. -/
def greetingLoader : Loader :=
  { url := Loader.inlineUrl, reader := fun _ => .ok (.ok (Utf8.ofString " hi\n")) }

/-- An id is assigned and then emptied; a configuration without an id leaves it so. -/
def greeting : List (DraftStep Unit Unit) :=
  [.id "greeter", .loader greetingLoader, .id ""] ++ .config .standard ::
    [.compiler (strictText .risor), .provider ()]

/-- The blanks around the text stay, and the program is named after the whole of it. The calls could also
have been made in another order, without those that another one undoes. -/
theorem build_of_last_calls_greeting :
    (ofSteps greeting).build .bare
      = (ofSteps [.provider (), .compiler (strictText .risor), .id "", .loader greetingLoader]).build
          .bare ∧
    Compatible (.id "greeter" : DraftStep Unit Unit) (.loader greetingLoader) ∧
    ofSteps greeting = ofSteps ([.id "greeter", .loader greetingLoader, .id ""] ++
      [.compiler (strictText .risor), .provider ()]) ∧
    ∃ program, (ofSteps greeting).build .bare = .ok program ∧
      program.content.source = " hi\n" ∧ program.id = sourceId " hi\n" := by
  obtain ⟨hsame, -, hparted, -, hskip, hends, htext⟩ := build_of_last_calls (β := Unit) (π := Unit)
  have hparts : Parts greeting greetingLoader (strictText .risor) () := ⟨rfl, rfl, rfl⟩
  have hunnamed : ∀ id ∈ last? setId? greeting, id = "" := fun id h => (Option.some.inj h).symm
  have hcompiled : strictText .risor (.ok (Utf8.ofString " hi\n")) = .ok ⟨" hi\n", (), .risor⟩ := rfl
  have hbuilt := (hends .bare greeting _).2 (.unnamed hparts rfl hcompiled hunnamed)
  obtain ⟨hsource, hid⟩ := htext " hi\n" greetingLoader (strictText .risor) rfl
    (keepsSource_strictText _) .bare greeting _ hparts.loader hparts.compiler hbuilt
  exact ⟨hsame _ _ ⟨rfl, rfl, rfl, rfl⟩ .bare, hparted _ _ nofun, hskip .standard rfl _ _, _, hbuilt,
    hsource, hid hunnamed⟩

end Draft

end ScriptHost
