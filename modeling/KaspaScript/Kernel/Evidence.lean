import KaspaScript.Kernel.Readiness
import Mathlib.Data.List.Forall2

namespace KaspaScript

namespace ContractBlueprint

variable {blueprint : ContractBlueprint}

/-! What readiness on mainnet rests on. -/

end ContractBlueprint

/-! Readiness against more, or reordered, evidence. -/

namespace ReadinessLevel

/-- The strength of a readiness level. -/
def strength : ReadinessLevel → Nat
  | .blocked => 0
  | .preview => 1
  | .verified => 2

instance : LE ReadinessLevel := ⟨fun a b => a.strength ≤ b.strength⟩

theorem le_def {a b : ReadinessLevel} : a ≤ b ↔ a.strength ≤ b.strength := Iff.rfl

end ReadinessLevel

/-- A readiness line that gets no worse. -/
structure FeatureReadiness.NoLower (line line' : FeatureReadiness) : Prop where
  same : line'.transition = line.transition ∧ line'.feature = line.feature ∧
    line'.required = line.required
  level : line.level ≤ line'.level
  best : ∀ level ∈ line.best, ∃ level' ∈ line'.best, level ≤ level'

/-- A capability that gets no worse. -/
structure CapabilityFeature.NoLower (capability capability' : CapabilityFeature) : Prop where
  same : capability'.feature = capability.feature
  level : capability.level ≤ capability'.level
  best : ∀ level ∈ capability.bestEvidence, ∃ level' ∈ capability'.bestEvidence, level ≤ level'

/-- The report without the labels of the evidence it cites. -/
def ReadinessReport.withoutLabels (report : ReadinessReport) : ReadinessReport :=
  { report with features := report.features.map fun line => { line with sourceLabel := none } }

namespace ContractBlueprint

variable {blueprint : ContractBlueprint} {evidence : List SourceEvidence}

/-- The level of a capability is the lowest of its lines. -/
theorem le_capabilityLevel {level : ReadinessLevel} {related : List FeatureReadiness} :
    level ≤ capabilityLevel related ↔ ∀ line ∈ related, level ≤ line.level := by
  have hcases : ∀ level : ReadinessLevel, level.strength ≤ 2 ∧
      (level ≠ .blocked → 1 ≤ level.strength) ∧
      (level ≠ .blocked → level ≠ .preview → level = .verified) := by
    intro level
    cases level <;> simp [ReadinessLevel.strength]
  unfold capabilityLevel
  simp only [ReadinessLevel.le_def]
  split_ifs with hblocked hpreview
  · obtain ⟨line, hline, hlevel⟩ := List.any_eq_true.mp hblocked
    constructor
    · intro hle other hother
      exact Nat.le_trans hle (Nat.zero_le _)
    · intro hall
      have hle := hall line hline
      rw [of_decide_eq_true hlevel] at hle
      exact hle
  · obtain ⟨line, hline, hlevel⟩ := List.any_eq_true.mp hpreview
    constructor
    · intro hle other hother
      have hnot : other.level ≠ .blocked := by
        intro heq
        exact hblocked (List.any_eq_true.mpr ⟨other, hother, by simp [heq]⟩)
      exact Nat.le_trans hle ((hcases other.level).2.1 hnot)
    · intro hall
      have hle := hall line hline
      rw [of_decide_eq_true hlevel] at hle
      exact hle
  · constructor
    · intro hle other hother
      have hnot : other.level ≠ .blocked := by
        intro heq
        exact hblocked (List.any_eq_true.mpr ⟨other, hother, by simp [heq]⟩)
      have hnot' : other.level ≠ .preview := by
        intro heq
        exact hpreview (List.any_eq_true.mpr ⟨other, hother, by simp [heq]⟩)
      rw [(hcases other.level).2.2 hnot hnot']
      exact (hcases level).1
    · intro _
      exact (hcases level).1

theorem bestEvidence_mono (h : ∀ entry ∈ blueprint.evidence, entry ∈ evidence)
    (feature : KernelFeature) :
    ∀ best ∈ blueprint.bestEvidence feature,
      ∃ better ∈ ({ blueprint with evidence := evidence } : ContractBlueprint).bestEvidence feature,
        best.level ≤ better.level := by
  apply Library.maxByKey_mono
  intro entry hentry
  rw [List.mem_filter] at hentry ⊢
  exact ⟨h entry hentry.1, hentry.2⟩

theorem isSatisfied_mono (h : ∀ entry ∈ blueprint.evidence, entry ∈ evidence)
    {requirement : FeatureRequirement} (hsatisfied : blueprint.isSatisfied requirement = true) :
    ({ blueprint with evidence := evidence } : ContractBlueprint).isSatisfied requirement = true := by
  rw [isSatisfied_iff] at hsatisfied ⊢
  obtain ⟨entry, hentry, hcovers⟩ := hsatisfied
  exact ⟨entry, h entry hentry, hcovers⟩

theorem ready_mono (h : ∀ entry ∈ blueprint.evidence, entry ∈ evidence)
    (hready : blueprint.readinessReport.ready = true) :
    ({ blueprint with evidence := evidence } : ContractBlueprint).readinessReport.ready = true := by
  rw [ready_iff] at hready ⊢
  obtain ⟨hproved, hsatisfied⟩ := hready
  refine ⟨?_, fun entry hentry => isSatisfied_mono h (hsatisfied entry hentry)⟩
  intro hnetwork
  obtain ⟨entry, hentry, hlevel⟩ := activationProved_iff.mp (hproved hnetwork)
  exact activationProved_iff.mpr ⟨entry, h entry hentry, hlevel⟩

theorem featureReadiness_mono (h : ∀ entry ∈ blueprint.evidence, entry ∈ evidence)
    (transition : Transition) (requirement : FeatureRequirement) :
    (blueprint.featureReadiness transition requirement).NoLower
      (({ blueprint with evidence := evidence } : ContractBlueprint).featureReadiness transition
        requirement) := by
  have hbest := bestEvidence_mono h requirement.feature
  refine ⟨⟨rfl, rfl, rfl⟩, ?_, ?_⟩
  · simp only [featureReadiness, ReadinessLevel.le_def]
    by_cases hsatisfied : blueprint.isSatisfied requirement = true
    · rw [if_pos hsatisfied, if_pos (isSatisfied_mono h hsatisfied)]
    · rw [if_neg hsatisfied]
      cases hcovered : blueprint.bestEvidence requirement.feature with
      | none => exact Nat.zero_le _
      | some best =>
        obtain ⟨better, hbetter, _⟩ := hbest best hcovered
        rw [Option.mem_def.mp hbetter]
        split_ifs <;> simp_all [ReadinessLevel.strength]
  · intro level hlevel
    obtain ⟨best, hmem, rfl⟩ := Option.mem_map.mp hlevel
    obtain ⟨better, hbetter, hle⟩ := hbest best hmem
    exact ⟨better.level, Option.mem_map_of_mem _ hbetter, hle⟩

theorem readinessLines_mono (h : ∀ entry ∈ blueprint.evidence, entry ∈ evidence) :
    List.Forall₂ FeatureReadiness.NoLower blueprint.readinessReport.features
      ({ blueprint with evidence := evidence } : ContractBlueprint).readinessReport.features := by
  simp only [readinessReport, List.forall₂_map_left_iff, List.forall₂_map_right_iff]
  rw [show ({ blueprint with evidence := evidence } : ContractBlueprint).requirements =
    blueprint.requirements from rfl, List.forall₂_same]
  intro entry _
  exact featureReadiness_mono h entry.1 entry.2

theorem capabilityFeatures_mono (h : ∀ entry ∈ blueprint.evidence, entry ∈ evidence) :
    List.Forall₂ CapabilityFeature.NoLower blueprint.capabilityProfile.features
      ({ blueprint with evidence := evidence } : ContractBlueprint).capabilityProfile.features := by
  simp only [capabilityProfile, capabilityFeatures, List.forall₂_map_left_iff,
    List.forall₂_map_right_iff]
  rw [show ({ blueprint with evidence := evidence } : ContractBlueprint).requirements =
    blueprint.requirements from rfl, List.forall₂_same]
  intro feature _
  refine ⟨rfl, ?_, ?_⟩
  · -- every line of the second report is no lower than its line in the first
    apply le_capabilityLevel.mpr
    intro line' hline'
    obtain ⟨hmem', hfeature'⟩ := List.mem_filter.mp hline'
    obtain ⟨entry, hentry, rfl⟩ := List.mem_map.mp hmem'
    have hle := featureReadiness_mono h entry.1 entry.2
    have hrelated : blueprint.featureReadiness entry.1 entry.2 ∈
        blueprint.readinessReport.features.filter fun report => report.feature = feature :=
      List.mem_filter.mpr ⟨List.mem_map_of_mem hentry, hfeature'⟩
    have hfirst := le_capabilityLevel.mp (Nat.le_refl _) _ hrelated
    exact Nat.le_trans hfirst hle.level
  · intro level hlevel
    obtain ⟨best, hmem, rfl⟩ := Option.mem_map.mp hlevel
    obtain ⟨better, hbetter, hle⟩ := bestEvidence_mono h feature best hmem
    exact ⟨better.level, Option.mem_map_of_mem _ hbetter, hle⟩

/-! Reordered evidence: the best level is a matter of what entries there are. -/

theorem map_level_bestEvidence (h : blueprint.evidence.Perm evidence) (feature : KernelFeature) :
    (({ blueprint with evidence := evidence } : ContractBlueprint).bestEvidence feature).map
      SourceEvidence.level = (blueprint.bestEvidence feature).map SourceEvidence.level := by
  have hrank : Function.Injective EvidenceLevel.rank := fun _ _ => EvidenceLevel.rank_injective
  apply Option.map_injective hrank
  rw [Option.map_map, Option.map_map]
  apply Library.map_maxByKey_eq
  intro entry
  simp only [List.mem_filter, h.mem_iff]

theorem isSatisfied_perm (h : blueprint.evidence.Perm evidence)
    (requirement : FeatureRequirement) :
    ({ blueprint with evidence := evidence } : ContractBlueprint).isSatisfied requirement =
      blueprint.isSatisfied requirement := by
  rw [Bool.eq_iff_iff, isSatisfied_iff, isSatisfied_iff]
  simp only [h.mem_iff]

theorem blockers_perm (h : blueprint.evidence.Perm evidence) :
    ({ blueprint with evidence := evidence } : ContractBlueprint).blockers =
      blueprint.blockers := by
  have hproved : ({ blueprint with evidence := evidence } : ContractBlueprint).activationProved =
      blueprint.activationProved := by
    rw [Bool.eq_iff_iff, activationProved_iff, activationProved_iff]
    simp only [h.mem_iff]
  have hrequirement : ∀ transition requirement,
      ({ blueprint with evidence := evidence } : ContractBlueprint).requirementBlockers transition
        requirement = blueprint.requirementBlockers transition requirement := by
    intro transition requirement
    simp only [requirementBlockers, isSatisfied_perm h, map_level_bestEvidence h]
  simp only [blockers, hproved, hrequirement]
  rfl

theorem featureReadiness_perm (h : blueprint.evidence.Perm evidence) (transition : Transition)
    (requirement : FeatureRequirement) :
    { ({ blueprint with evidence := evidence } : ContractBlueprint).featureReadiness transition
        requirement with sourceLabel := none } =
      { blueprint.featureReadiness transition requirement with sourceLabel := none } := by
  have hbest := map_level_bestEvidence h requirement.feature
  have hsome : (({ blueprint with evidence := evidence } : ContractBlueprint).bestEvidence
      requirement.feature).isSome = (blueprint.bestEvidence requirement.feature).isSome := by
    rw [← Option.isSome_map (f := SourceEvidence.level), hbest, Option.isSome_map]
  simp only [featureReadiness, isSatisfied_perm h, hbest, hsome]

theorem readinessReport_perm (h : blueprint.evidence.Perm evidence) :
    ({ blueprint with evidence := evidence } : ContractBlueprint).readinessReport.withoutLabels =
      blueprint.readinessReport.withoutLabels := by
  simp only [readinessReport, ReadinessReport.withoutLabels, blockers_perm h, List.map_map,
    Function.comp_def, featureReadiness_perm h]
  rfl

theorem capabilityProfile_perm (h : blueprint.evidence.Perm evidence) :
    ({ blueprint with evidence := evidence } : ContractBlueprint).capabilityProfile =
      blueprint.capabilityProfile := by
  have hlevel : ∀ (lines : List (Transition × FeatureRequirement)) (feature : KernelFeature),
      capabilityLevel ((lines.map fun entry =>
        ({ blueprint with evidence := evidence } : ContractBlueprint).featureReadiness entry.1
          entry.2).filter fun report => report.feature = feature) =
      capabilityLevel ((lines.map fun entry =>
        blueprint.featureReadiness entry.1 entry.2).filter
          fun report => report.feature = feature) := by
    intro lines feature
    have hline : ∀ entry : Transition × FeatureRequirement,
        (({ blueprint with evidence := evidence } : ContractBlueprint).featureReadiness entry.1
          entry.2).level = (blueprint.featureReadiness entry.1 entry.2).level := by
      intro entry
      have hsame := featureReadiness_perm h entry.1 entry.2
      rw [FeatureReadiness.mk.injEq] at hsame
      exact hsame.2.2.2.2.1
    simp only [capabilityLevel, List.filter_map, List.any_map, Function.comp_def, hline]
    rfl
  have hblockers := blockers_perm h
  simp only [capabilityProfile, capabilityFeatures, readinessReport, policyLimits, hblockers,
    map_level_bestEvidence h, hlevel]
  rfl

/-- When no blocker stands, every line is satisfied. -/
theorem satisfied_of_ready (h : blueprint.readinessReport.ready = true) :
    ∀ line ∈ blueprint.readinessReport.features, line.satisfied = true := by
  intro line hline
  obtain ⟨entry, hentry, rfl⟩ := List.mem_map.mp hline
  exact (ready_iff.mp h).2 entry hentry

theorem verified_of_ready (h : blueprint.readinessReport.ready = true) :
    ∀ capability ∈ blueprint.capabilityProfile.features, capability.level = .verified := by
  intro capability hcapability
  obtain ⟨feature, _, rfl⟩ := List.mem_map.mp hcapability
  have hverified : ReadinessLevel.verified ≤ capabilityLevel
      (blueprint.readinessReport.features.filter fun report => report.feature = feature) := by
    apply le_capabilityLevel.mpr
    intro line hline
    obtain ⟨entry, hentry, rfl⟩ := List.mem_map.mp (List.mem_of_mem_filter hline)
    have hsatisfied := (ready_iff.mp h).2 entry hentry
    simp only [featureReadiness, hsatisfied, if_true]
    exact Nat.le_refl _
  revert hverified
  generalize capabilityLevel _ = level
  cases level <;> simp [ReadinessLevel.le_def, ReadinessLevel.strength]

/-- What more evidence leaves as good as it was. -/
structure NoWorse (blueprint richer : ContractBlueprint) : Prop where
  ready : blueprint.readinessReport.ready = true → richer.readinessReport.ready = true
  lines : List.Forall₂ FeatureReadiness.NoLower blueprint.readinessReport.features
    richer.readinessReport.features
  capabilities : List.Forall₂ CapabilityFeature.NoLower blueprint.capabilityProfile.features
    richer.capabilityProfile.features

/-- The readiness report and the capability profile agree with each other and with the evidence,
get no worse with more of it, and do not depend on its order. -/
theorem readiness_consistent (blueprint : ContractBlueprint) :
    (blueprint.readinessReport.ready = true ↔ blueprint.readinessReport.level ≠ .blocked) ∧
    (blueprint.network ≠ .mainnet → (blueprint.readinessReport.ready = true ↔
      ∀ transition ∈ blueprint.transitions, ∀ requirement ∈ transition.requirements,
        ∃ evidence ∈ blueprint.evidence,
          evidence.covers requirement.feature blueprint.network = true ∧
          requirement.minimumEvidence ≤ evidence.level)) ∧
    (blueprint.readinessReport.ready = true →
      (∀ capability ∈ blueprint.capabilityProfile.features, capability.level = .verified) ∧
      ∀ line ∈ blueprint.readinessReport.features, line.satisfied = true) ∧
    (∀ evidence, blueprint.evidence.Sublist evidence →
      blueprint.NoWorse { blueprint with evidence := evidence }) ∧
    (∀ evidence, blueprint.evidence.Perm evidence →
      ({ blueprint with evidence := evidence } : ContractBlueprint).readinessReport.withoutLabels =
        blueprint.readinessReport.withoutLabels ∧
      ({ blueprint with evidence := evidence } : ContractBlueprint).capabilityProfile =
        blueprint.capabilityProfile) := by
  refine ⟨?_, ?_, ?_, ?_, ?_⟩
  · simp only [readinessReport]
    split_ifs with hblockers hunknown <;> simp_all
  · intro hnetwork
    rw [ready_iff, forall_requirements (P := fun r => blueprint.isSatisfied r = true)]
    simp only [hnetwork, false_implies, true_and, isSatisfied_iff]
  · intro hready
    exact ⟨verified_of_ready hready, satisfied_of_ready hready⟩
  · intro evidence hmore
    have hsubset : ∀ entry ∈ blueprint.evidence, entry ∈ evidence := fun _ hmem => hmore.subset hmem
    exact ⟨ready_mono hsubset, readinessLines_mono hsubset, capabilityFeatures_mono hsubset⟩
  · intro evidence hperm
    exact ⟨readinessReport_perm hperm, capabilityProfile_perm hperm⟩

end ContractBlueprint

end KaspaScript
