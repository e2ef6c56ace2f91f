import ReleaseInstaller.Platform

/-! What the ignore rules of a build take out of its platforms. -/
namespace ReleaseInstaller

theorem isSupported_iff {m : PlatformMatrix} {platform : String} : m.isSupported platform = true ↔
    platform ∈ m.supported.map Platform.display ∧ platform ∉ m.excluded.map Platform.display := by
  simp [PlatformMatrix.isSupported]

/-- A revision is always written behind the architecture. -/
theorem Platform.display_ofRevision_ne (os arch revision : String) :
    (ofRevision os arch revision).display ≠ display ⟨os, arch⟩ := by
  intro h
  have hlength := congrArg (fun text : String => text.toList.length) h
  simp only [display, ofRevision, String.toList_append, List.length_append] at hlength
  have hv : "v".toList.length = 1 := rfl
  omega

theorem IgnoreRule.platform_of_plain {rule : IgnoreRule} (h : rule.revision = none) :
    rule.platform = ⟨rule.os, rule.arch⟩ := by
  rw [IgnoreRule.platform, h]

namespace Build

variable {b : Build} {rule : IgnoreRule} {platform : String}

/-- Some system and some architecture of the build give this platform. -/
def Lists (b : Build) (platform : String) : Prop :=
  ∃ os ∈ b.systems, ∃ arch ∈ b.archs, ∃ p ∈ Platform.expand b.revisions os arch,
    p.display = platform

/-- Some rule of the build names this very platform. -/
def Ignores (b : Build) (platform : String) : Prop :=
  ∃ rule ∈ b.ignored, rule.platform.display = platform

/-- The build as it would be without one of its rules. -/
def without (b : Build) (rule : IgnoreRule) : Build :=
  { b with ignored := b.ignored.filter (· ≠ rule) }

theorem isSupported_ofBuild_iff :
    (PlatformMatrix.ofBuild b).isSupported platform = true ↔
      b.Lists platform ∧ ¬ b.Ignores platform := by
  rw [isSupported_iff]
  simp only [PlatformMatrix.ofBuild, List.mem_map, List.mem_eraseDups, List.mem_flatMap]
  refine and_congr ⟨?_, ?_⟩ (not_congr ⟨?_, ?_⟩)
  · rintro ⟨p, ⟨os, hos, arch, harch, hp⟩, hdisplay⟩
    exact ⟨os, hos, arch, harch, p, hp, hdisplay⟩
  · rintro ⟨os, hos, arch, harch, p, hp, hdisplay⟩
    exact ⟨p, ⟨os, hos, arch, harch, hp⟩, hdisplay⟩
  · rintro ⟨_, ⟨rule, hrule, rfl⟩, hdisplay⟩
    exact ⟨rule, hrule, hdisplay⟩
  · rintro ⟨rule, hrule, hdisplay⟩
    exact ⟨_, ⟨rule, hrule, rfl⟩, hdisplay⟩

theorem isSupported_ofBuild_eq_false_iff :
    (PlatformMatrix.ofBuild b).isSupported platform = false ↔
      (b.Lists platform → b.Ignores platform) := by
  rw [← Bool.not_eq_true, isSupported_ofBuild_iff, not_and, Classical.not_not]

/-- A rule answers for no platform but its own. -/
theorem ignores_without_iff (h : rule.platform.display ≠ platform) :
    (b.without rule).Ignores platform ↔ b.Ignores platform := by
  constructor
  · rintro ⟨other, hother, hdisplay⟩
    exact ⟨other, (List.mem_filter.mp hother).1, hdisplay⟩
  · rintro ⟨other, hother, hdisplay⟩
    have hne : other ≠ rule := by
      rintro rfl
      exact h hdisplay
    exact ⟨other, List.mem_filter.mpr ⟨hother, decide_eq_true hne⟩, hdisplay⟩

theorem isSupported_without (h : rule.platform.display ≠ platform) :
    (PlatformMatrix.ofBuild (b.without rule)).isSupported platform =
      (PlatformMatrix.ofBuild b).isSupported platform := by
  have hlists : (b.without rule).Lists platform ↔ b.Lists platform := Iff.rfl
  rw [Bool.eq_iff_iff, isSupported_ofBuild_iff, isSupported_ofBuild_iff, hlists,
    ignores_without_iff h]

theorem isSupported_eq_false_of_mem (h : rule ∈ b.ignored) :
    (PlatformMatrix.ofBuild b).isSupported rule.platform.display = false :=
  isSupported_ofBuild_eq_false_iff.mpr fun _ => ⟨rule, h, rfl⟩

end Build

open Build in
/-- A rule without a revision takes out its system and architecture as they stand. That is all that
the build makes of the two unless the architecture is 32-bit ARM: the revisions of that one are left
out only if other rules name them, and the rule itself has no effect on them. -/
theorem forall_expand_not_isSupported_iff {b : Build} {rule : IgnoreRule} (hrule : rule ∈ b.ignored)
    (hplain : rule.revision = none) (hrevisions : b.revisions ≠ []) :
    (PlatformMatrix.ofBuild b).isSupported (rule.os ++ "/" ++ rule.arch) = false ∧
    ((∀ p ∈ Platform.expand b.revisions rule.os rule.arch,
        (PlatformMatrix.ofBuild b).isSupported p.display = false) ↔
      (rule.arch = "arm" → ∀ revision ∈ b.revisions,
        b.Lists (Platform.ofRevision rule.os "arm" revision).display →
          (b.without rule).Ignores (Platform.ofRevision rule.os "arm" revision).display)) ∧
    (rule.arch = "arm" → ∀ platform, platform ≠ rule.os ++ "/arm" →
      (PlatformMatrix.ofBuild (b.without rule)).isSupported platform =
        (PlatformMatrix.ofBuild b).isSupported platform) := by
  have hplatform := IgnoreRule.platform_of_plain hplain
  have hself : (PlatformMatrix.ofBuild b).isSupported (Platform.display ⟨rule.os, rule.arch⟩) =
      false := hplatform ▸ isSupported_eq_false_of_mem hrule
  refine ⟨hself, ?_, ?_⟩
  · by_cases harm : rule.arch = "arm"
    · have hother : ∀ revision : String,
          (b.without rule).Ignores (Platform.ofRevision rule.os "arm" revision).display ↔
            b.Ignores (Platform.ofRevision rule.os "arm" revision).display := by
        intro revision
        apply ignores_without_iff
        rw [hplatform, harm]
        exact (Platform.display_ofRevision_ne rule.os "arm" revision).symm
      simp only [Platform.expand, harm, hrevisions, ne_eq, not_false_eq_true, and_self, if_true,
        List.forall_mem_map, isSupported_ofBuild_eq_false_iff, hother, true_implies]
    · have hexpand : Platform.expand b.revisions rule.os rule.arch = [⟨rule.os, rule.arch⟩] :=
        if_neg fun h => harm h.1
      rw [hexpand, List.forall_mem_singleton]
      exact iff_of_true hself fun h => absurd h harm
  · intro harm platform hne
    apply isSupported_without
    rw [hplatform, harm, Platform.display, String.append_assoc]
    exact hne.symm

/-- A build for 32-bit ARM alone, with a rule that is to leave all of it out. -/
def armBuild : Build where
  binary := "bar"
  systems := ["linux"]
  archs := ["arm"]
  revisions := ["6", "7"]
  ignored := [⟨"linux", "arm", none⟩]

theorem forall_expand_not_isSupported_iff_armBuild :
    (⟨"linux", "arm", none⟩ : IgnoreRule) ∈ armBuild.ignored ∧ armBuild.revisions ≠ [] ∧
    (PlatformMatrix.ofBuild armBuild).isSupported "linux/arm" = false ∧
    ∀ platform ≠ "linux/arm",
      (PlatformMatrix.ofBuild (armBuild.without ⟨"linux", "arm", none⟩)).isSupported platform =
        (PlatformMatrix.ofBuild armBuild).isSupported platform := by
  have hrule : (⟨"linux", "arm", none⟩ : IgnoreRule) ∈ armBuild.ignored := by decide
  have hrevisions : armBuild.revisions ≠ [] := by decide
  obtain ⟨hself, -, hother⟩ := forall_expand_not_isSupported_iff hrule rfl hrevisions
  exact ⟨hrule, hrevisions, hself, hother rfl⟩

theorem plain_rule_spares_arm_revisions :
    ¬ ∀ (b : Build) (rule : IgnoreRule), rule ∈ b.ignored → rule.revision = none →
      b.revisions ≠ [] → ∀ p ∈ Platform.expand b.revisions rule.os rule.arch,
        (PlatformMatrix.ofBuild b).isSupported p.display = false := by
  intro h
  have hnone := h armBuild ⟨"linux", "arm", none⟩ (by decide) rfl (by decide)
    (.ofRevision "linux" "arm" "6") (by decide)
  have hsome : (PlatformMatrix.ofBuild armBuild).isSupported "linux/armv6" = true := by decide
  exact Bool.false_ne_true (hnone.symm.trans hsome)

end ReleaseInstaller
