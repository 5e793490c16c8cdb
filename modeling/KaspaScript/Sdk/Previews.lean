import KaspaScript.Lexer.Lexing
import KaspaScript.Sdk.Package

namespace KaspaScript

/-- The spend paths of an artifact, each with its contract, in order. -/
def CompiledArtifact.paths (artifact : CompiledArtifact) :
    List (ArtifactContract × ArtifactSpend) :=
  artifact.contracts.flatMap fun contract => contract.spends.map fun spend => (contract, spend)

/-- What the application model says of a spend path. -/
def CompiledArtifact.modelOf (artifact : CompiledArtifact)
    (path : ArtifactContract × ArtifactSpend) : Option TransitionModel :=
  artifact.application.transition path.1.name path.2.name

/-- The parameters of a spend that are signatures. -/
def signatureParams (params : List ArtifactParam) : List String :=
  (params.filter fun param => param.ty = .signature).map ArtifactParam.name

/-- A wallet preview that describes the spend path it stands for. -/
structure Describes (artifact : CompiledArtifact) (path : ArtifactContract × ArtifactSpend)
    (preview : WalletPreview) : Prop where
  transition : preview.transition = path.2.name
  semantics : ∃ model, artifact.modelOf path = some model ∧ preview.semantics = some model
  signers : preview.signers = signatureParams path.2.params

/-- Spend paths of one name are one transition to the application model. -/
def SharedNamesAgree (artifact : CompiledArtifact) : Prop :=
  ∀ path ∈ artifact.paths, ∀ other ∈ artifact.paths, path.2.name = other.2.name →
    artifact.modelOf path = artifact.modelOf other

/-! The builder steps of a transition keep the fields they do not name. -/

/-- What the previews show of a transition besides its texts. -/
def Transition.shown (t : Transition) : String × List String × Option TransitionModel :=
  (t.name, t.signers, t.semantics)

theorem shown_foldl {α : Type} {step : Transition → α → Transition}
    (h : ∀ t x, (step t x).shown = t.shown) (xs : List α) (t : Transition) :
    (xs.foldl step t).shown = t.shown := by
  induction xs generalizing t with
  | nil => rfl
  | cons x rest ih => rw [List.foldl_cons, ih, h]

theorem shown_describeSemantics {contract : ArtifactContract} {semantics : Option TransitionModel}
    {t : Transition} {name : String} (h : t.shown = (name, [], none)) :
    (describeSemantics contract semantics t).shown = (name, [], semantics) := by
  have hconsumes : ∀ (u : Transition) text, (u.addConsumes text).shown = u.shown :=
    fun _ _ => rfl
  have hcreates : ∀ (u : Transition) text, (u.addCreates text).shown = u.shown :=
    fun _ _ => rfl
  have hwarning : ∀ (u : Transition) text, (u.walletWarning text).shown = u.shown :=
    fun _ _ => rfl
  cases semantics with
  | none => simp only [describeSemantics, hcreates, hconsumes, h]
  | some model =>
    have hsemantics : ∀ u : Transition, u.shown = (name, [], none) →
        (u.withSemantics model).shown = (name, [], some model) := by
      intro u hu
      simp only [Transition.shown, Prod.mk.injEq] at hu
      simp [Transition.shown, Transition.withSemantics, hu.1, hu.2.1]
    apply hsemantics
    split_ifs <;> simp only [hwarning, hcreates, hconsumes, shown_foldl fun t _ => hcreates t _,
      shown_foldl fun t _ => hconsumes t _, h]

theorem shown_signers (params : List ArtifactParam) {t : Transition} {name : String}
    {signers : List String} {semantics : Option TransitionModel}
    (h : t.shown = (name, signers, semantics)) :
    (params.foldl (fun transition param =>
      if param.ty = .signature then transition.signer param.name else transition) t).shown =
      (name, signers ++ signatureParams params, semantics) := by
  induction params generalizing t signers with
  | nil => simp [signatureParams, h]
  | cons param rest ih =>
    rw [List.foldl_cons]
    by_cases hsignature : param.ty = .signature
    · have hstep : (t.signer param.name).shown = (name, signers ++ [param.name], semantics) := by
        simp only [Transition.shown, Prod.mk.injEq] at h
        simp [Transition.shown, Transition.signer, h.1, h.2.1, h.2.2]
      rw [if_pos hsignature, ih hstep]
      simp [signatureParams, hsignature]
    · rw [if_neg hsignature, ih h]
      simp [signatureParams, hsignature]

theorem shown_spendTransition (artifact : CompiledArtifact) (contract : ArtifactContract)
    (spend : ArtifactSpend) :
    (spendTransition artifact contract spend).shown =
      (spend.name, signatureParams spend.params, artifact.modelOf (contract, spend)) := by
  unfold spendTransition
  rw [← List.nil_append (signatureParams spend.params)]
  apply shown_signers
  have hrequires : ∀ (u : Transition) requirement, (u.requires requirement).shown = u.shown :=
    fun _ _ => rfl
  split_ifs
  · rw [hrequires]
    exact shown_describeSemantics rfl
  · exact shown_describeSemantics rfl

/-! The blueprint has one transition for each spend path, in order. -/

theorem transitions_addContract (artifact : CompiledArtifact) (builder : ContractBuilder)
    (contract : ArtifactContract) :
    (addContract artifact builder contract).blueprint.transitions =
      builder.blueprint.transitions ++
        contract.spends.map fun spend => spendTransition artifact contract spend := by
  have hfields : ∀ (params : List ArtifactParam) (b : ContractBuilder) (field : _ → StateField),
      (params.foldl (fun b param => b.stateField (field param)) b).blueprint.transitions =
        b.blueprint.transitions := by
    intro params
    induction params with
    | nil => intro b field; rfl
    | cons param rest ih => intro b field; exact ih (b.stateField (field param)) field
  have hspends : ∀ (spends : List ArtifactSpend) (b : ContractBuilder),
      (spends.foldl (fun b spend =>
        b.transition (spendTransition artifact contract spend)) b).blueprint.transitions =
        b.blueprint.transitions ++
          spends.map fun spend => spendTransition artifact contract spend := by
    intro spends
    induction spends with
    | nil => intro b; simp
    | cons spend rest ih =>
      intro b
      rw [List.foldl_cons, ih]
      simp [ContractBuilder.transition]
  unfold addContract
  rw [hspends, hfields]

theorem transitions_of_blueprint {toUppercase : Char → List Char} {path : String}
    {artifact : CompiledArtifact} {blueprint : ContractBlueprint}
    (h : kernelBlueprintFromArtifact toUppercase path artifact = .ok blueprint) :
    blueprint.transitions =
      artifact.paths.map fun path => spendTransition artifact path.1 path.2 := by
  have hcontracts : ∀ (contracts : List ArtifactContract) (b : ContractBuilder),
      (contracts.foldl (addContract artifact) b).blueprint.transitions =
        b.blueprint.transitions ++ contracts.flatMap fun contract =>
          contract.spends.map fun spend => spendTransition artifact contract spend := by
    intro contracts
    induction contracts with
    | nil => intro b; simp
    | cons contract rest ih =>
      intro b
      rw [List.foldl_cons, ih, transitions_addContract, List.flatMap_cons, List.append_assoc]
  unfold kernelBlueprintFromArtifact at h
  simp only [ContractBuilder.build] at h
  split_ifs at h
  rw [Except.ok.injEq] at h
  rw [← h, hcontracts]
  simp only [CompiledArtifact.paths, List.map_flatMap, List.map_map]
  rfl

theorem previews_of_package {blueprint : ContractBlueprint} {package : KernelPackage}
    (h : blueprint.package = .ok package) :
    blueprint.transitions.mapM (fun transition => blueprint.previewTransition transition.name) =
      .ok package.walletPreviews := by
  obtain ⟨previews, hpreviews, h⟩ := Library.bind_eq_ok.mp h
  rw [Library.pure_eq_ok] at h
  rw [← h]
  exact hpreviews

/-- A package that was built holds the previews of the blueprint's transitions. -/
theorem previews_of_build {toUppercase : Char → List Char} {path : String}
    {artifact : CompiledArtifact} {options : KernelPackageBuildOptions}
    {package : CompiledKernelPackage}
    (h : buildKernelPackageFromArtifact toUppercase path artifact options = .ok package) :
    ∃ blueprint, kernelBlueprintFromArtifact toUppercase path artifact = .ok blueprint ∧
      blueprint.transitions.mapM (fun transition => blueprint.previewTransition transition.name) =
        .ok package.kernel.walletPreviews := by
  unfold buildKernelPackageFromArtifact at h
  obtain ⟨_, _, h⟩ := Library.bind_eq_ok.mp h
  obtain ⟨asm, _, h⟩ := Library.bind_eq_ok.mp h
  obtain ⟨blueprint, hblueprint, h⟩ := Library.bind_eq_ok.mp h
  rw [Library.mapError_eq_ok] at hblueprint h
  unfold packageCompiledContract at h
  obtain ⟨kernel, hkernel, h⟩ := Library.bind_eq_ok.mp h
  obtain ⟨fee, _, h⟩ := Library.bind_eq_ok.mp h
  rw [Library.pure_eq_ok] at h
  have hsame : package.kernel.walletPreviews = kernel.walletPreviews := by rw [← h]
  rw [hsame]
  exact ⟨blueprint, hblueprint, previews_of_package hkernel⟩

/-- A preview shows the first spend path of its name. -/
theorem previewTransition_path {artifact : CompiledArtifact} {blueprint : ContractBlueprint}
    (h : blueprint.transitions =
      artifact.paths.map fun path => spendTransition artifact path.1 path.2)
    {path : ArtifactContract × ArtifactSpend} (hpath : path ∈ artifact.paths) :
    ∃ first ∈ artifact.paths,
      artifact.paths.find? (fun other => other.2.name == path.2.name) = some first ∧
      first.2.name = path.2.name ∧ ∃ preview,
        blueprint.previewTransition path.2.name = .ok preview ∧
        preview.transition = path.2.name ∧ preview.semantics = artifact.modelOf first ∧
        preview.signers = signatureParams first.2.params := by
  have hshown := fun other : ArtifactContract × ArtifactSpend =>
    shown_spendTransition artifact other.1 other.2
  simp only [Transition.shown, Prod.mk.injEq] at hshown
  have hsome : (artifact.paths.find? fun other => other.2.name == path.2.name).isSome := by
    rw [List.find?_isSome]
    exact ⟨path, hpath, by simp⟩
  obtain ⟨first, hfirst⟩ := Option.isSome_iff_exists.mp hsome
  have hname : first.2.name = path.2.name := by simpa using List.find?_some hfirst
  have hfound : blueprint.transition path.2.name =
      some (spendTransition artifact first.1 first.2) := by
    rw [ContractBlueprint.transition, h, List.find?_map]
    have hkey : (fun other : ArtifactContract × ArtifactSpend =>
        (spendTransition artifact other.1 other.2).name == path.2.name) =
        fun other => other.2.name == path.2.name := by
      funext other
      rw [(hshown other).1]
    simp only [Function.comp_def, hkey, hfirst, Option.map_some]
  refine ⟨first, List.mem_of_find?_eq_some hfirst, hfirst, hname, ?_⟩
  rw [ContractBlueprint.previewTransition, hfound]
  refine ⟨_, rfl, ?_, (hshown first).2.2, (hshown first).2.1⟩
  exact (hshown first).1.trans hname

/-! What the application model says of the spend paths of a compiled artifact. -/

/-- The model finds every spend path of a compiled artifact, with its own parameters. -/
theorem modelOf_path {sha256 : Bytes → Bytes} {source file : String} {target : Target}
    {artifact : CompiledArtifact}
    (h : compileFileForTarget sha256 source file target = .ok artifact)
    {path : ArtifactContract × ArtifactSpend} (hpath : path ∈ artifact.paths) :
    ∃ model, artifact.modelOf path = some model ∧ model.name = path.2.name ∧
      path.2.params = model.arguments.map fun argument => ⟨argument.name, argument.ty⟩ := by
  obtain ⟨program, ir, haccepted, hlower, hcompile⟩ := program_of_compile h
  obtain ⟨_, happlication, _⟩ := lowerProgram_eq_ok hlower
  simp only [CompiledArtifact.paths, contracts_of_compileToccata hcompile, List.mem_flatMap,
    List.mem_map] at hpath
  obtain ⟨_, ⟨irContract, hirContract, rfl⟩, spend, hspend, rfl⟩ := hpath
  obtain ⟨irSpend, hirSpend, rfl⟩ := List.mem_map.mp hspend
  obtain ⟨contract, hcontract, spend, hspend, hlowerContract, hlowerSpend⟩ :=
    spend_of_lowerProgram hlower hirContract hirSpend
  obtain ⟨hcontractName, _, _⟩ := lowerContract_eq_ok hlowerContract
  obtain ⟨hspendName, hparams, _⟩ := lowerSpend_eq_ok hlowerSpend
  refine ⟨buildTransitionModel spend, ?_, hspendName.symm, ?_⟩
  · simp only [CompiledArtifact.modelOf, artifactContract, artifactSpend, hcontractName, hspendName,
      application_of_compileToccata hcompile, happlication, ApplicationModel.transition,
      buildApplicationModel, List.find?_map, Function.comp_def]
    rw [Library.find?_of_fresh haccepted.names hcontract]
    have hspends := (haccepted.contract contract hcontract).spends
    simp only [Option.map_some, Option.bind_some, List.find?_map, Function.comp_def]
    have hname : ∀ other : Spend, (buildTransitionModel other).name = other.name.name :=
      fun _ => rfl
    simp only [hname]
    rw [Library.find?_of_fresh hspends hspend]
    rfl
  · simp only [artifactSpend, artifactParams, hparams, lowerParams, List.map_map, buildTransitionModel]
    rfl

/-- The previews of a package describe the spend paths of the compiled artifact in order, exactly
when spend paths of one name are one transition to the application model. -/
theorem walletPreviews_describe_iff (sha256 : Bytes → Bytes) (toUppercase : Char → List Char)
    (source file path : String) (target : Target) (artifact : CompiledArtifact)
    (options : KernelPackageBuildOptions) (package : CompiledKernelPackage)
    (hcompile : compileFileForTarget sha256 source file target = .ok artifact)
    (h : buildKernelPackageFromArtifact toUppercase path artifact options = .ok package) :
    List.Forall₂ (Describes artifact) artifact.paths package.kernel.walletPreviews ↔
      SharedNamesAgree artifact := by
  obtain ⟨blueprint, hblueprint, hpreviews⟩ := previews_of_build h
  have htransitions := transitions_of_blueprint hblueprint
  have hmap : artifact.paths.mapM (fun path => blueprint.previewTransition path.2.name) =
      .ok package.kernel.walletPreviews := by
    have hname := fun other : ArtifactContract × ArtifactSpend =>
      congrArg Prod.fst (shown_spendTransition artifact other.1 other.2)
    simp only [Transition.shown] at hname
    rw [htransitions, List.mapM_map] at hpreviews
    simpa only [Function.comp_def, hname] using hpreviews
  rw [Library.forall₂_mapM_iff hmap]
  constructor
  · intro hdescribes
    -- both paths of a name are shown as its first path
    have hfirst : ∀ path ∈ artifact.paths, ∀ first,
        artifact.paths.find? (fun other => other.2.name == path.2.name) = some first →
        artifact.modelOf path = artifact.modelOf first := by
      intro path hpath first hfind
      obtain ⟨first', _, hfind', _, preview, hpreview, _, hsemantics, _⟩ :=
        previewTransition_path htransitions hpath
      obtain rfl : first' = first := by
        rw [hfind, Option.some.injEq] at hfind'
        exact hfind'.symm
      obtain ⟨model, hmodel, hshown⟩ := (hdescribes path hpath preview hpreview).semantics
      rw [hmodel, ← hshown, hsemantics]
    intro path hpath other hother hsame
    obtain ⟨first, _, hfind, _⟩ := previewTransition_path htransitions hpath
    have hfind' := hfind
    rw [hsame] at hfind'
    rw [hfirst path hpath first hfind, hfirst other hother first hfind']
  · intro hagree path hpath preview hpreview
    obtain ⟨first, hmem, _, hname, preview', hpreview', htransition, hsemantics, hsigners⟩ :=
      previewTransition_path htransitions hpath
    obtain rfl : preview' = preview := by
      rw [hpreview, Except.ok.injEq] at hpreview'
      exact hpreview'.symm
    obtain ⟨model, hmodel, _, hparams⟩ := modelOf_path hcompile hpath
    obtain ⟨model', hmodel', _, hparams'⟩ := modelOf_path hcompile hmem
    have hshared := hagree first hmem path hpath hname
    refine ⟨htransition, ⟨model, hmodel, ?_⟩, ?_⟩
    · rw [hsemantics, hshared, hmodel]
    · rw [hmodel, hmodel', Option.some.injEq] at hshared
      rw [hsigners, hparams', hshared, ← hparams]

theorem sharedNamesAgree_of_nodup {artifact : CompiledArtifact}
    (h : (artifact.paths.map fun path => path.2.name).Nodup) : SharedNamesAgree artifact := by
  intro path hpath other hother hname
  rw [List.inj_on_of_nodup_map h hpath hother hname]

/-- Two contracts that both close, one by one signature and one by two. -/
def closesSource : String := "contract Alpha \x7b
  params \x7b owner: PublicKey \x7d
  spend close(sig: Signature) \x7b
    require sig.verify(owner);
  \x7d
\x7d
contract Beta \x7b
  params \x7b owner: PublicKey, heir: PublicKey \x7d
  spend close(first: Signature, second: Signature) \x7b
    require first.verify(owner) && second.verify(heir);
  \x7d
\x7d"

def closesTokens : List Token :=
  [⟨.contract, 0, 8⟩, ⟨.identifier "Alpha", 9, 14⟩, ⟨.leftBrace, 15, 16⟩, ⟨.params, 19, 25⟩,
    ⟨.leftBrace, 26, 27⟩, ⟨.identifier "owner", 28, 33⟩, ⟨.colon, 33, 34⟩,
    ⟨.type .publicKey, 35, 44⟩, ⟨.rightBrace, 45, 46⟩, ⟨.spend, 49, 54⟩,
    ⟨.identifier "close", 55, 60⟩, ⟨.leftParen, 60, 61⟩, ⟨.identifier "sig", 61, 64⟩,
    ⟨.colon, 64, 65⟩, ⟨.type .signature, 66, 75⟩, ⟨.rightParen, 75, 76⟩, ⟨.leftBrace, 77, 78⟩,
    ⟨.require, 83, 90⟩, ⟨.identifier "sig", 91, 94⟩, ⟨.dot, 94, 95⟩,
    ⟨.identifier "verify", 95, 101⟩, ⟨.leftParen, 101, 102⟩, ⟨.identifier "owner", 102, 107⟩,
    ⟨.rightParen, 107, 108⟩, ⟨.semicolon, 108, 109⟩, ⟨.rightBrace, 112, 113⟩,
    ⟨.rightBrace, 114, 115⟩, ⟨.contract, 116, 124⟩, ⟨.identifier "Beta", 125, 129⟩,
    ⟨.leftBrace, 130, 131⟩, ⟨.params, 134, 140⟩, ⟨.leftBrace, 141, 142⟩,
    ⟨.identifier "owner", 143, 148⟩, ⟨.colon, 148, 149⟩, ⟨.type .publicKey, 150, 159⟩,
    ⟨.comma, 159, 160⟩, ⟨.identifier "heir", 161, 165⟩, ⟨.colon, 165, 166⟩,
    ⟨.type .publicKey, 167, 176⟩, ⟨.rightBrace, 177, 178⟩, ⟨.spend, 181, 186⟩,
    ⟨.identifier "close", 187, 192⟩, ⟨.leftParen, 192, 193⟩, ⟨.identifier "first", 193, 198⟩,
    ⟨.colon, 198, 199⟩, ⟨.type .signature, 200, 209⟩, ⟨.comma, 209, 210⟩,
    ⟨.identifier "second", 211, 217⟩, ⟨.colon, 217, 218⟩, ⟨.type .signature, 219, 228⟩,
    ⟨.rightParen, 228, 229⟩, ⟨.leftBrace, 230, 231⟩, ⟨.require, 236, 243⟩,
    ⟨.identifier "first", 244, 249⟩, ⟨.dot, 249, 250⟩, ⟨.identifier "verify", 250, 256⟩,
    ⟨.leftParen, 256, 257⟩, ⟨.identifier "owner", 257, 262⟩, ⟨.rightParen, 262, 263⟩,
    ⟨.andAnd, 264, 266⟩, ⟨.identifier "second", 267, 273⟩, ⟨.dot, 273, 274⟩,
    ⟨.identifier "verify", 274, 280⟩, ⟨.leftParen, 280, 281⟩, ⟨.identifier "heir", 281, 285⟩,
    ⟨.rightParen, 285, 286⟩, ⟨.semicolon, 286, 287⟩, ⟨.rightBrace, 290, 291⟩,
    ⟨.rightBrace, 292, 293⟩]

def alphaSource : String := "contract Alpha \x7b
  params \x7b owner: PublicKey \x7d
  spend close(sig: Signature) \x7b
    require sig.verify(owner);
  \x7d
\x7d"

set_option maxRecDepth 10000 in
theorem lex_closes : lexFile closesSource "closes.ks" = .ok closesTokens := by
  apply lexFile_eq_ok.mpr
  unfold closesSource
  erw [String.toList_ofList]
  refine ⟨?_, ?_, ?_⟩
  · decide +kernel
  · decide +kernel
  · decide +kernel

set_option maxRecDepth 10000 in
theorem lex_alpha : lexFile alphaSource "closes.ks" = .ok (closesTokens.take 27) := by
  apply lexFile_eq_ok.mpr
  unfold alphaSource
  erw [String.toList_ofList]
  refine ⟨?_, ?_, ?_⟩
  · decide +kernel
  · decide +kernel
  · decide +kernel

/-- The compiler and the packager, one after the other. -/
def compileAndPackage (source : String) :
    Except PackageError (CompiledArtifact × CompiledKernelPackage) := do
  let artifact ← (compileFileForTarget (fun _ => []) source "closes.ks" .verifiedTn12).mapError
    .codegen
  let package ← buildKernelPackageFromArtifact (fun ch => [ch.toUpper]) "closes.ks" artifact
    ⟨.verifiedTn12, 0, none⟩
  pure (artifact, package)

theorem compileAndPackage_eq_ok {source : String} {artifact : CompiledArtifact}
    {package : CompiledKernelPackage} (h : compileAndPackage source = .ok (artifact, package)) :
    compileFileForTarget (fun _ => []) source "closes.ks" .verifiedTn12 = .ok artifact ∧
      buildKernelPackageFromArtifact (fun ch => [ch.toUpper]) "closes.ks" artifact
        ⟨.verifiedTn12, 0, none⟩ = .ok package := by
  obtain ⟨artifact', hcompile, h⟩ := Library.bind_eq_ok.mp h
  obtain ⟨package', hbuild, h⟩ := Library.bind_eq_ok.mp h
  rw [Library.pure_eq_ok, Prod.mk.injEq] at h
  obtain ⟨rfl, rfl⟩ := h
  exact ⟨Library.mapError_eq_ok.mp hcompile, hbuild⟩

/-- One contract of one spend is described. -/
theorem walletPreviews_describe_iff_alpha : ∃ artifact package,
    compileFileForTarget (fun _ => []) alphaSource "closes.ks" .verifiedTn12 = .ok artifact ∧
    buildKernelPackageFromArtifact (fun ch => [ch.toUpper]) "closes.ks" artifact
      ⟨.verifiedTn12, 0, none⟩ = .ok package ∧
    List.Forall₂ (Describes artifact) artifact.paths package.kernel.walletPreviews := by
  have hrun : ∃ result, compileAndPackage alphaSource = .ok result ∧
      (result.1.paths.map fun path => path.2.name) = ["close"] := by
    apply Library.toOption_map_eq_some
    rw [compileAndPackage, compileFileForTarget, lowerFile_of_lex lex_alpha]
    decide +kernel
  obtain ⟨⟨artifact, package⟩, hrun, hnames⟩ := hrun
  obtain ⟨hcompile, hbuild⟩ := compileAndPackage_eq_ok hrun
  refine ⟨artifact, package, hcompile, hbuild, ?_⟩
  apply (walletPreviews_describe_iff (fun _ => []) (fun ch => [ch.toUpper]) alphaSource "closes.ks"
    "closes.ks" .verifiedTn12 artifact ⟨.verifiedTn12, 0, none⟩ package hcompile hbuild).mpr
  apply sharedNamesAgree_of_nodup
  rw [hnames]
  decide

/-- The second preview asks for the signature of the first contract's spend. -/
theorem walletPreviews_describe_closes : ∃ artifact package,
    compileFileForTarget (fun _ => []) closesSource "closes.ks" .verifiedTn12 = .ok artifact ∧
    buildKernelPackageFromArtifact (fun ch => [ch.toUpper]) "closes.ks" artifact
      ⟨.verifiedTn12, 0, none⟩ = .ok package ∧
    ¬ List.Forall₂ (Describes artifact) artifact.paths package.kernel.walletPreviews := by
  have hrun : ∃ result, compileAndPackage closesSource = .ok result ∧
      (result.1.paths.map fun path => signatureParams path.2.params,
        result.2.kernel.walletPreviews.map WalletPreview.signers) =
      ([["sig"], ["first", "second"]], [["sig"], ["sig"]]) := by
    apply Library.toOption_map_eq_some
    rw [compileAndPackage, compileFileForTarget, lowerFile_of_lex lex_closes]
    decide +kernel
  obtain ⟨⟨artifact, package⟩, hrun, hsigners⟩ := hrun
  obtain ⟨hcompile, hbuild⟩ := compileAndPackage_eq_ok hrun
  refine ⟨artifact, package, hcompile, hbuild, ?_⟩
  intro hdescribes
  have hsame : artifact.paths.map (fun path => signatureParams path.2.params) =
      package.kernel.walletPreviews.map WalletPreview.signers := by
    rw [← List.forall₂_eq_eq_eq, List.forall₂_map_left_iff, List.forall₂_map_right_iff]
    exact hdescribes.imp fun _ _ h => h.signers.symm
  rw [Prod.mk.injEq] at hsigners
  rw [hsigners.1, hsigners.2] at hsame
  exact absurd hsame (by decide)

end KaspaScript
