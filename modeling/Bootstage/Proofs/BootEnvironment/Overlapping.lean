import Bootstage.Proofs.BootEnvironment.Reset

/-!
# Boot environments that overlap

Nothing keeps the two directories of a boot environment apart: they may be one, or either may lie
somewhere in the other. Both are removed before either is created, so a reset lays out both of them
all the same, and cleaning up takes both away even when the first removal took the second directory
with it.
-/

namespace Bootstage

/-- Clearing two places away, one after the other, takes away what is at or below either. -/
theorem Scene.Cleared.get?_eq {before middle after : Scene} {esp firmware : Location}
    (hesp : before.Cleared esp middle) (hfirmware : middle.Cleared firmware after)
    (apartFromRoot : esp ≠ [] ∧ firmware ≠ []) (location : Location) :
    after.tree.get? location =
      if esp <+: location ∨ firmware <+: location then none else before.tree.get? location := by
  rw [hfirmware.tree_eq, hesp.tree_eq, Tree.get?_erase, Tree.get?_erase]
  by_cases hroot : location = []
  · simp [hroot, apartFromRoot]
  · by_cases he : esp <+: location <;> by_cases hf : firmware <+: location <;> simp [hroot, he, hf]

namespace BootEnvironment

open Bootstage.Action

variable {environment : BootEnvironment} {architecture : String} {scene left : Scene}
  {esp firmware : Location}

/-! ### What a reset leaves can be cleared -/

/-- The system takes both paths if the directories could be laid out. -/
theorem accepted_of_layOut {cleared : Scene} (hnone : cleared.tree.get? esp = none)
    (hesp : cleared.tree.Clearable cleared.cwd environment.espDir esp)
    (hfirmware : cleared.tree.Clearable cleared.cwd environment.firmwareDir firmware)
    (h : (environment.layOut architecture).effect cleared = (.ok (), left)) :
    environment.espDir.Accepted ∧ environment.firmwareDir.Accepted := by
  obtain ⟨booted, hboot, hfw⟩ := exists_created_of_layOut hnone hesp hfirmware h
  refine ⟨⟨check_espDir hesp.plain hboot.accepted.check, fun name hn => ?_⟩, hfw.accepted⟩
  refine hboot.accepted.short name ?_
  rw [names_bootDir]
  exact List.mem_append_left _ hn

/-- The system takes both paths if a reset has succeeded. -/
theorem accepted_of_reset (hesp : scene.tree.Clearable scene.cwd environment.espDir esp)
    (hfirmware : scene.tree.Clearable scene.cwd environment.firmwareDir firmware)
    (h : (environment.reset architecture).effect scene = (.ok (), left)) :
    environment.espDir.Accepted ∧ environment.firmwareDir.Accepted := by
  obtain ⟨middle, cleared, hmiddle, hcleared, hrun⟩ := effect_reset hesp hfirmware architecture
  rw [hrun] at h
  have hnone : cleared.tree.get? esp = none := by
    rw [hmiddle.get?_eq hcleared ⟨hesp.site_ne_root, hfirmware.site_ne_root⟩,
      if_pos (.inl List.prefix_rfl)]
  exact accepted_of_layOut hnone (hcleared.clearable (hmiddle.clearable hesp))
    (hcleared.clearable (hmiddle.clearable hfirmware)) h

/-- Where a reset has succeeded, both directories can be cleared again. -/
theorem clearable_of_reset (hesp : scene.tree.Clearable scene.cwd environment.espDir esp)
    (hfirmware : scene.tree.Clearable scene.cwd environment.firmwareDir firmware)
    (h : (environment.reset architecture).effect scene = (.ok (), left)) :
    left.tree.Clearable left.cwd environment.espDir esp ∧
      left.tree.Clearable left.cwd environment.firmwareDir firmware := by
  have hfresh := fresh_of_reset hesp hfirmware h
  obtain ⟨hacceptedEsp, hacceptedFirmware⟩ := accepted_of_reset hesp hfirmware h
  exact ⟨.of_directory hesp.plain hacceptedEsp hfresh.espSite hfresh.get?_esp,
    .of_directory hfirmware.plain hacceptedFirmware hfresh.firmwareSite hfresh.get?_firmware⟩

/-! ### Cleaning up -/

/-- A directory that does not show is not removed, and nothing is said. -/
theorem run_discard_of_not_present {machine : Machine} {directory : Path}
    (h : machine.tree.present machine.cwd directory = false) :
    (discard directory).run machine = (.ok (), machine) := by
  rw [discard, run_bind, run_look]
  simp [h]

/-- Cleaning up where neither directory shows does nothing at all. -/
theorem run_clean_of_not_present {machine : Machine}
    (h : ∀ directory ∈ environment.directories,
      machine.tree.present machine.cwd directory = false) :
    environment.clean.run machine = (.ok (), machine) := by
  have hesp := run_discard_of_not_present (h environment.espDir (by simp [directories]))
  have hfirmware := run_discard_of_not_present (h environment.firmwareDir (by simp [directories]))
  rw [clean, run_bind_of_ok hesp, hfirmware]

/-- What cleaning up does to a machine. -/
structure Cleans (environment : BootEnvironment) (esp firmware : Location)
    (machine cleaned : Machine) : Prop where
  /-- It succeeds. -/
  succeeds : environment.clean.run machine = (.ok (), cleaned)
  /-- Neither directory shows any more. -/
  absent : ∀ directory ∈ environment.directories,
    cleaned.tree.present cleaned.cwd directory = false
  /-- Whatever was at or below the two places is gone, and all else is as it was. -/
  get? : ∀ location, cleaned.tree.get? location =
    if esp <+: location ∨ firmware <+: location then none else machine.tree.get? location
  /-- No one has been called. -/
  calls : cleaned.calls = machine.calls
  /-- Cleaning up once more does nothing at all. -/
  again : environment.clean.run cleaned = (.ok (), cleaned)

/-- Where both directories can be cleared, cleaning up succeeds and takes away both, though either
removal may have taken the other directory away. -/
theorem exists_cleans {machine : Machine}
    (hesp : machine.tree.Clearable machine.cwd environment.espDir esp)
    (hfirmware : machine.tree.Clearable machine.cwd environment.firmwareDir firmware) :
    ∃ cleaned, environment.Cleans esp firmware machine cleaned := by
  obtain ⟨middle, cleared, hmiddle, hcleared, hclear⟩ :=
    @effect_clear environment machine.scene esp firmware hesp hfirmware "all"
  rw [← effect_clean] at hclear
  obtain ⟨hout, hscene⟩ := (ignoresConsole_clean environment).run_of_effect hclear
  rcases hrun : environment.clean.run machine with ⟨outcome, cleaned⟩
  rw [hrun] at hout hscene
  obtain rfl : outcome = .ok () := hout
  obtain rfl : cleaned.scene = cleared := hscene
  have hget : ∀ location, cleaned.tree.get? location =
      if esp <+: location ∨ firmware <+: location then none else machine.tree.get? location :=
    hmiddle.get?_eq hcleared ⟨hesp.site_ne_root, hfirmware.site_ne_root⟩
  have habsent : ∀ directory ∈ environment.directories,
      cleaned.tree.present cleaned.cwd directory = false := by
    intro directory hd
    simp only [directories, List.mem_cons, List.not_mem_nil, or_false] at hd
    rcases hd with rfl | rfl
    · have hlater : cleaned.tree.Clearable cleaned.cwd environment.espDir esp :=
        hcleared.clearable (hmiddle.clearable hesp)
      exact hlater.not_present_of_get?_eq_none (by rw [hget, if_pos (.inl List.prefix_rfl)])
    · have hlater : cleaned.tree.Clearable cleaned.cwd environment.firmwareDir firmware :=
        hcleared.clearable (hmiddle.clearable hfirmware)
      exact hlater.not_present_of_get?_eq_none (by rw [hget, if_pos (.inr List.prefix_rfl)])
  have hcalls : cleaned.calls = machine.calls := hcleared.calls_eq.trans hmiddle.calls_eq
  exact ⟨cleaned, hrun, habsent, hget, hcalls, run_clean_of_not_present habsent⟩

/-! ### However the directories lie to each other -/

/-- Wherever the two directories lie and whatever is in them: cleaning up succeeds and takes away
both, a reset that succeeds lays out both, and what it leaves can be cleaned up as well. -/
theorem overlapping_account {machine : Machine}
    (hesp : machine.tree.Clearable machine.cwd environment.espDir esp)
    (hfirmware : machine.tree.Clearable machine.cwd environment.firmwareDir firmware) :
    (∃ cleaned, environment.Cleans esp firmware machine cleaned) ∧
      ∀ name fresh, (environment.reset name).run machine = (.ok (), fresh) →
        LaidOut esp firmware machine.tree fresh.tree ∧
          ∃ cleaned, environment.Cleans esp firmware fresh cleaned := by
  refine ⟨exists_cleans hesp hfirmware, fun name fresh hrun => ?_⟩
  have hreset := (ignoresConsole_reset environment name).effect_of_run hrun
  obtain ⟨hesp', hfirmware'⟩ := clearable_of_reset hesp hfirmware hreset
  exact ⟨(fresh_of_reset hesp hfirmware hreset).laidOut, exists_cleans hesp' hfirmware'⟩

/-! ### One directory in the other -/

/-- A boot environment whose system partition lies in the directory of the firmware copies. -/
def nested : BootEnvironment :=
  ⟨⟨"/w/ovmf/deep/esp"⟩, ⟨"/w/ovmf"⟩⟩

/-- A machine on which both directories of it are there with old contents. -/
def nestedMachine : Machine where
  tree :=
    Tree.empty.putAll [(["w"], .directory), (["w", "kept"], .file [1]), (["w", "ovmf"], .directory),
      (["w", "ovmf", "stale"], .link "/w/kept"), (["w", "ovmf", "deep"], .directory),
      (["w", "ovmf", "deep", "old"], .file [2]), (["w", "ovmf", "deep", "esp"], .directory),
      (["w", "ovmf", "deep", "esp", "efi"], .file [3])]
  cwd := some ["w", "ovmf"]

/-- Though the system partition lies in the directory of the firmware copies, both are laid out,
and both are taken away again. -/
theorem overlapping_account_nested :
    ∃ fresh cleaned, (nested.reset "x86_64").run nestedMachine = (.ok (), fresh) ∧
      fresh.tree.get? ["w", "ovmf", "deep", "esp", "efi", "boot"] = some .directory ∧
      fresh.tree.get? ["w", "ovmf", "deep", "old"] = none ∧
      nested.Cleans ["w", "ovmf", "deep", "esp"] ["w", "ovmf"] fresh cleaned ∧
      cleaned.tree.get? ["w", "kept"] = some (.file [1]) := by
  have hok : ((nested.reset "x86_64").run nestedMachine).1 = .ok () := by
    decide +kernel
  rcases hrun : (nested.reset "x86_64").run nestedMachine with ⟨outcome, fresh⟩
  rw [hrun] at hok
  obtain rfl : outcome = .ok () := hok
  have hesp : nestedMachine.tree.Clearable nestedMachine.cwd nested.espDir
      ["w", "ovmf", "deep", "esp"] := by
    decide +kernel
  have hfirmware : nestedMachine.tree.Clearable nestedMachine.cwd nested.firmwareDir
      ["w", "ovmf"] := by
    decide +kernel
  obtain ⟨-, haccount⟩ := overlapping_account hesp hfirmware
  obtain ⟨hlaid, cleaned, hcleans⟩ := haccount "x86_64" fresh hrun
  refine ⟨fresh, cleaned, rfl, ?_, ?_, hcleans, ?_⟩
  · rw [hlaid, if_pos (by decide)]
  · rw [hlaid, if_neg (by decide), if_pos (by decide)]
  · rw [hcleans.get?, if_neg (by decide), hlaid, if_neg (by decide), if_neg (by decide)]
    decide +kernel

end BootEnvironment

end Bootstage
