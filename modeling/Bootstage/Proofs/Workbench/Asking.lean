import Bootstage.Proofs.Workbench.Launching

/-!
# What is handed to the emulator

A launch hands an order to the emulator if anything depends on what the emulator would do with that
order, and it does so on a scene if anything depends on what the emulator would do there. It hands
over one order at most, on one scene: the order of a granted accelerator, on what has been staged.
Then it ends as the emulator answers.
-/

namespace Bootstage.Workbench

open Bootstage.Action

variable {bench : Workbench} {architecture : Architecture} {profile : BuildProfile}
  {requested : Bool} {machine : Machine} {order : Launch} {emulator : Emulator}
  {before ready : Scene}

/-- The launch comes to ask the emulator to run an order, on the scene that has been staged. -/
def Starts (bench : Workbench) (architecture : Architecture) (requested : Bool)
    (profile : BuildProfile) (before : Scene) (order : Launch) (ready : Scene) : Prop :=
  ∃ acceleration, Acceleration.resolve architecture.id requested bench.host = .ok acceleration ∧
    (bench.stage architecture profile).effect before = (.ok (), ready) ∧
    order = bench.order architecture acceleration

/-- How a launch ends when the emulator has answered. -/
def verdict (architecture : Architecture) (order : Launch) :
    Except SystemError ProcessExit → Except Error Unit
  | .error cause => .error (.process order.program cause)
  | .ok status => if status.success then .ok () else .error (.launch architecture.id status)

/-- A launch that comes to ask the emulator ends as the emulator has answered, and leaves what the
emulator has made of the scene. -/
theorem Starts.effect_launch_eq
    (h : bench.Starts architecture requested profile before order ready) :
    (bench.launch architecture requested profile).effect before =
      (verdict architecture order (bench.emulator.react order ready).outcome,
        bench.played order ready) := by
  obtain ⟨acceleration, hgranted, hstage, rfl⟩ := h
  rw [launch, effect_bind (by simp), effect_accelerate, hgranted]
  dsimp only
  rw [effect_bind (by simp), hstage]
  dsimp only
  rw [effect_start]
  rfl

/-- It does so on every machine with the scene. -/
theorem Starts.run_launch
    (h : bench.Starts architecture requested profile machine.scene order ready) :
    ((bench.launch architecture requested profile).run machine).1 =
        verdict architecture order (bench.emulator.react order ready).outcome ∧
      ((bench.launch architecture requested profile).run machine).2.scene =
        bench.played order ready :=
  (bench.ignoresConsole_launch architecture profile requested).run_of_effect h.effect_launch_eq

/-- The workbench with another emulator. -/
def withEmulator (bench : Workbench) (emulator : Emulator) : Workbench :=
  { bench with emulator }

/-- A launch hands an order to the emulator: with an emulator that does something else in answer to
that order, and to no other, the launch would go otherwise. -/
def Asks (bench : Workbench) (architecture : Architecture) (requested : Bool)
    (profile : BuildProfile) (machine : Machine) (order : Launch) : Prop :=
  ∃ emulator : Emulator,
    (∀ other, other ≠ order → emulator.react other = bench.emulator.react other) ∧
      ((bench.withEmulator emulator).launch architecture requested profile).run machine ≠
        (bench.launch architecture requested profile).run machine

/-- A launch hands an order to the emulator on a scene: with an emulator that does something else in
answer to that order on that scene, and nowhere else, the launch would go otherwise. -/
def AsksOn (bench : Workbench) (architecture : Architecture) (requested : Bool)
    (profile : BuildProfile) (machine : Machine) (order : Launch) (ready : Scene) : Prop :=
  ∃ emulator : Emulator,
    (∀ other scene, ¬(other = order ∧ scene = ready) →
      emulator.react other scene = bench.emulator.react other scene) ∧
      ((bench.withEmulator emulator).launch architecture requested profile).run machine ≠
        (bench.launch architecture requested profile).run machine

/-! ### What a launch depends on -/

/-- The emulator starts alike if it does the same in answer to the order on what it finds. -/
theorem run_start_withEmulator {acceleration : Acceleration}
    (h : emulator.react (bench.order architecture acceleration) machine.scene =
      bench.emulator.react (bench.order architecture acceleration) machine.scene) :
    ((bench.withEmulator emulator).start architecture acceleration).run machine =
      (bench.start architecture acceleration).run machine := by
  have hengage : ∀ call toError remark,
      (engage call (emulator.react (bench.order architecture acceleration)) toError).run
          (machine.remark remark) =
        (engage call (bench.emulator.react (bench.order architecture acceleration)) toError).run
          (machine.remark remark) := by
    intro call toError remark
    rw [run_engage, run_engage, Machine.scene_remark, h]
  change (do
    say .standard _
    let status ← engage _ (emulator.react (bench.order architecture acceleration)) _
    if status.success then pure () else fail (.launch architecture.id status) : Action Unit).run
      machine = _
  rw [run_bind, run_say, start, run_bind, run_say]
  dsimp only
  rw [run_bind, run_bind, hengage]
  rfl

/-- A launch depends on what the emulator does in answer to the order with which it starts, on the
scene on which it starts, and on nothing else about the emulator. -/
theorem run_launch_withEmulator
    (h : ∀ started ready,
      bench.Starts architecture requested profile machine.scene started ready →
        emulator.react started ready = bench.emulator.react started ready) :
    ((bench.withEmulator emulator).launch architecture requested profile).run machine =
      (bench.launch architecture requested profile).run machine := by
  change (bench.accelerate architecture requested >>= fun acceleration =>
    bench.stage architecture profile >>= fun _ =>
      (bench.withEmulator emulator).start architecture acceleration).run machine = _
  rw [launch, run_bind, run_bind]
  rcases hgrant : (bench.accelerate architecture requested).run machine with
    ⟨error | acceleration, granted⟩
  · rfl
  dsimp only
  rw [run_bind, run_bind]
  rcases hstage : (bench.stage architecture profile).run granted with ⟨error | ⟨⟩, staged⟩
  · rfl
  dsimp only
  have hgranted := (Host.ignoresConsole_accelerate _ _ _).effect_of_run hgrant
  have hstaged := (bench.ignoresConsole_stage architecture profile).effect_of_run hstage
  obtain ⟨hresolve, hscene⟩ := Prod.mk.inj
    ((bench.effect_accelerate architecture requested machine.scene).symm.trans hgranted)
  rw [← hscene] at hstaged
  exact run_start_withEmulator (h _ staged.scene ⟨acceleration, hresolve, hstaged, rfl⟩)

open Classical in
/-- An emulator that starts one more program in answer to an order on a scene. -/
noncomputable def busier (bench : Workbench) (order : Launch) (ready : Scene) : Emulator where
  react other scene :=
    if other = order ∧ scene = ready then
      { bench.emulator.react other scene with
        starts := .launch order :: (bench.emulator.react other scene).starts }
    else bench.emulator.react other scene

/-- A launch hands over the order with which it starts the emulator, on what has been staged, and no
other order and nowhere else. -/
theorem asksOn_iff : bench.AsksOn architecture requested profile machine order ready ↔
    bench.Starts architecture requested profile machine.scene order ready := by
  constructor
  · rintro ⟨emulator, hothers, hdiffers⟩
    by_contra hnone
    refine hdiffers (run_launch_withEmulator fun started staged hstarts => ?_)
    refine hothers started staged ?_
    rintro ⟨rfl, rfl⟩
    exact hnone hstarts
  · intro hstarts
    refine ⟨bench.busier order ready, fun other scene ho => if_neg ho, fun hsame => ?_⟩
    have hbusier : (bench.withEmulator (bench.busier order ready)).Starts architecture requested
        profile machine.scene order ready := hstarts
    have hplayed : (bench.withEmulator (bench.busier order ready)).played order ready =
        bench.played order ready := by
      rw [← hbusier.run_launch.2, ← hstarts.run_launch.2, hsame]
    have hcalls := congrArg (fun scene => scene.calls.length) hplayed
    simp [played, withEmulator, busier] at hcalls

/-- A launch hands over the order with which it starts the emulator, and no other. -/
theorem asks_iff : bench.Asks architecture requested profile machine order ↔
    ∃ ready, bench.Starts architecture requested profile machine.scene order ready := by
  constructor
  · rintro ⟨emulator, hothers, hdiffers⟩
    by_contra hnone
    refine hdiffers (run_launch_withEmulator fun started ready hstarts => ?_)
    refine congrFun (hothers started ?_) ready
    rintro rfl
    exact hnone ⟨ready, hstarts⟩
  · rintro ⟨ready, hstarts⟩
    obtain ⟨emulator, hothers, hdiffers⟩ := asksOn_iff.mpr hstarts
    exact ⟨emulator, fun other ho => funext fun scene => hothers other scene fun h => ho h.1,
      hdiffers⟩

end Bootstage.Workbench
