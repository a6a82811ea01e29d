import Bootstage.Proofs.Machine.Scenes

/-!
# What a run says

A run makes remarks, and the level of output chooses those of them that are written. Nothing else
hangs on the level: from one scene a run ends in one way, leaves one scene and makes the same
remarks at every level.
-/

namespace Bootstage

namespace Remark

/-- The lines that are written of some remarks at a level. -/
def written (level : Verbosity) (remarks : List Remark) : List Line :=
  (remarks.filter (·.shownAt level)).map (·.line)

@[simp] theorem written_nil (level : Verbosity) : written level [] = [] := rfl

/-- What is written of remarks is written of each in turn. -/
theorem written_append (level : Verbosity) (remarks more : List Remark) :
    written level (remarks ++ more) = written level remarks ++ written level more := by
  simp [written]

/-- What is shown at a level is shown at every higher one. -/
theorem shownAt_of_le {remark : Remark} {level higher : Verbosity} (hle : level.rank ≤ higher.rank)
    (h : remark.shownAt level = true) : remark.shownAt higher = true := by
  cases hl : remark.least? with
  | none => simp [shownAt, hl]
  | some least =>
    simp only [shownAt, hl, Option.all_some, Verbosity.shows, decide_eq_true_eq] at h ⊢
    exact Nat.le_trans h hle

/-- At a higher level the lines of a lower one are written in their order, among others. -/
theorem written_sublist {level higher : Verbosity} (hle : level.rank ≤ higher.rank)
    (remarks : List Remark) : (written level remarks).Sublist (written higher remarks) := by
  have hfilter : remarks.filter (·.shownAt level) =
      (remarks.filter (·.shownAt higher)).filter (·.shownAt level) := by
    rw [List.filter_filter]
    refine List.filter_congr fun remark _ => ?_
    cases hs : remark.shownAt level with
    | false => simp
    | true => simp [shownAt_of_le hle hs]
  rw [written, hfilter]
  exact List.filter_sublist.map _

end Remark

/-- The machine with the scene at a level of output, with what has been written. -/
def Scene.machine (scene : Scene) (level : Verbosity) (console : List Line) : Machine where
  tree := scene.tree
  cwd := scene.cwd
  verbosity := level
  console := console
  calls := scene.calls

@[simp] theorem Scene.scene_machine (scene : Scene) (level : Verbosity) (console : List Line) :
    (scene.machine level console).scene = scene := rfl

/-- A remark adds to the console what is written of it. -/
theorem Machine.remark_machine (scene : Scene) (level : Verbosity) (console : List Line)
    (remark : Remark) :
    (scene.machine level console).remark remark =
      scene.machine level (console ++ Remark.written level [remark]) := by
  have hlevel : (scene.machine level console).verbosity = level := rfl
  cases hs : remark.shownAt level with
  | false => simp [Machine.remark, Remark.written, hlevel, hs]
  | true => simp [Machine.remark, Remark.written, hs, Scene.machine]

/-- Remarks add to the console what is written of them. -/
theorem Machine.foldl_remark_machine (scene : Scene) (level : Verbosity) (console : List Line)
    (remarks : List Remark) :
    remarks.foldl Machine.remark (scene.machine level console) =
      scene.machine level (console ++ Remark.written level remarks) := by
  induction remarks generalizing console with
  | nil => simp
  | cons remark remarks ih =>
    rw [List.foldl_cons, remark_machine, ih, List.append_assoc, ← Remark.written_append]
    rfl

namespace Action

/-- From a scene the action ends with an outcome, leaves a scene and makes remarks, at every level
of output and whatever has been written before. -/
def Makes {α : Type} (action : Action α) (before : Scene) (outcome : Except Error α) (left : Scene)
    (remarks : List Remark) : Prop :=
  ∀ level console, action.run (before.machine level console) =
    (outcome, left.machine level (console ++ Remark.written level remarks))

/-- From every scene the action makes remarks of a kind, and does not heed the level. -/
def Speaks {α : Type} (action : Action α) (kind : Remark → Prop) : Prop :=
  ∀ before, ∃ outcome left remarks, action.Makes before outcome left remarks ∧
    ∀ remark ∈ remarks, kind remark

namespace Speaks

variable {α β ε : Type} {kind : Remark → Prop}

/-- An action that writes nothing and leaves everything as it is. -/
private theorem of_silent {action : Action α} (outcome : Scene → Except Error α)
    (h : ∀ scene level console,
      action.run (scene.machine level console) = (outcome scene, scene.machine level console)) :
    action.Speaks kind := by
  intro before
  refine ⟨outcome before, before, [], fun level console => ?_, by simp⟩
  rw [h, Remark.written_nil, List.append_nil]

@[simp] protected theorem pure (value : α) : (pure value : Action α).Speaks kind :=
  of_silent (fun _ => .ok value) fun _ _ _ => rfl

@[simp] protected theorem fail (error : Error) : (fail error : Action α).Speaks kind :=
  of_silent (fun _ => .error error) fun _ _ _ => rfl

@[simp] protected theorem ofExcept (outcome : Except Error α) : (ofExcept outcome).Speaks kind :=
  of_silent (fun _ => outcome) fun _ _ _ => rfl

@[simp] protected theorem look (view : Tree → Option Location → α) : (look view).Speaks kind :=
  of_silent (fun scene => .ok (view scene.tree scene.cwd)) fun _ _ _ => rfl

/-- What is said is a remark of its kind. -/
protected theorem say {least : Verbosity} {text : String} (h : kind (.said least text)) :
    (say least text).Speaks kind := by
  intro before
  refine ⟨.ok (), before, [.said least text], fun level console => ?_, by simpa using h⟩
  rw [run_say, Machine.remark_machine]

/-- What is told of a duration is a remark of its kind. -/
protected theorem timed {action : Action α} {label : String} (h : action.Speaks kind)
    (hlabel : kind (.timed label)) : (timed label action).Speaks kind := by
  intro before
  obtain ⟨outcome, left, remarks, hmakes, hkind⟩ := h before
  refine ⟨outcome, left, remarks ++ [.timed label], fun level console => ?_, ?_⟩
  · rw [run_timed, hmakes level console, Machine.remark_machine, List.append_assoc,
      ← Remark.written_append]
  · intro remark hr
    rcases List.mem_append.mp hr with hr | hr
    · exact hkind remark hr
    · exact List.mem_singleton.mp hr ▸ hlabel

@[simp] protected theorem onFiles
    (operation : Tree → Option Location → Except SystemError Unit × Tree)
    (toError : SystemError → Error) : (onFiles operation toError).Speaks kind := by
  intro before
  refine ⟨(operation before.tree before.cwd).1.mapError toError,
    before.withTree (operation before.tree before.cwd).2, [], fun level console => ?_, by simp⟩
  rw [run_onFiles, Remark.written_nil, List.append_nil]
  rfl

@[simp] protected theorem onFilesAtOnce
    (operation : Tree → Option Location → Except SystemError Tree)
    (toError : SystemError → Error) : (onFilesAtOnce operation toError).Speaks kind :=
  .onFiles _ _

/-- A call lets the collaborator speak. -/
protected theorem engage {call : Call} {react : Scene → Reaction (Except ε α)}
    {toError : ε → Error} (h : ∀ scene, ∀ remark ∈ (react scene).remarks, kind remark) :
    (engage call react toError).Speaks kind := by
  intro before
  refine ⟨(react before).outcome.mapError toError, before.after call (react before),
    (react before).remarks, fun level console => ?_, h before⟩
  rw [run_engage, Scene.scene_machine]
  refine Prod.ext rfl ?_
  exact Machine.foldl_remark_machine (before.after call (react before)) level console _

/-- Two actions in a row speak in one way if each of them does. -/
protected theorem bind {first : Action α} {next : α → Action β} (hf : first.Speaks kind)
    (hn : ∀ value, (next value).Speaks kind) : (first >>= next).Speaks kind := by
  intro before
  obtain ⟨outcome, between, remarks, hmakes, hkind⟩ := hf before
  cases outcome with
  | error error =>
    exact ⟨.error error, between, remarks,
      fun level console => run_bind_of_error (hmakes level console), hkind⟩
  | ok value =>
    obtain ⟨outcome, left, more, hmore, hkind'⟩ := hn value between
    refine ⟨outcome, left, remarks ++ more, fun level console => ?_, ?_⟩
    · rw [run_bind_of_ok (hmakes level console), hmore, List.append_assoc, ← Remark.written_append]
    · intro remark hr
      exact (List.mem_append.mp hr).elim (hkind remark) (hkind' remark)

protected theorem map {action : Action α} (h : action.Speaks kind) (f : α → β) :
    (f <$> action).Speaks kind := by
  rw [map_eq_pure_bind]
  exact h.bind fun value => .pure (f value)

/-- Actions on a list speak in one way if each of them does. -/
protected theorem forM {items : List β} {act : β → Action PUnit}
    (h : ∀ item, (act item).Speaks kind) : (items.forM act).Speaks kind := by
  induction items with
  | nil => exact .pure PUnit.unit
  | cons item items ih => exact .bind (h item) fun _ => ih

end Speaks

end Action

end Bootstage
