import Bootstage.Proofs.Tree.Growing

/-!
# Creating directories with those above them

A directory is created by trying its path and then, one after the other, the paths above it. At a
straight path this comes to the same as walking its names from the front and creating what is
missing on the way.
-/

namespace Bootstage.Tree

/-! ### One directory -/

/-- Where no link is on the way, the walk to the parent of a path is told by its names. -/
private theorem walkNames_eq_reach {tree : Tree}
    {onLink : Location → Text.Bytes → List Name → Except SystemError Location}
    {here : Location} {names : List Name} (ordinary : ∀ name ∈ names, Path.IsOrdinary name)
    (unlinked : tree.Unlinked (here ++ names)) :
    tree.walkNames .followed onLink here (names ++ [Text.encode "."]) = tree.reach here names := by
  induction names generalizing here with
  | nil =>
    rw [reach, requireDirectory, List.nil_append, walkNames]
    rcases tree.get? here with _ | _ | _ | _ <;> rfl
  | cons name rest ih =>
    have hun : tree.Unlinked ((here ++ [name]) ++ rest) := by simpa using unlinked
    have hrest := ih (fun other ho => ordinary other (List.mem_cons_of_mem name ho)) hun
    rw [reach, List.cons_append]
    by_cases hd : tree.get? here = some .directory
    · rw [walkNames_cons hd (ordinary name List.mem_cons_self)
        (unlinked (here ++ [name]) (by simp)) (by simp), hrest,
        requireDirectory_eq_ok_iff.mpr hd]
      rfl
    · rw [walkNames, requireDirectory]
      rcases hg : tree.get? here with _ | _ | _ | _
      · rfl
      · rfl
      · exact absurd hg hd
      · rfl

variable {tree : Tree} {cwd : Option Location} {path : Path} {base : Location}

/-- The directory of a plain path is reached by all names but the last. -/
theorem locateParent_eq_reach (hc : path.check = .ok ()) (ho : path.origin cwd = .ok base)
    (plain : path.Plain) (unlinked : tree.Unlinked (base ++ path.names)) :
    tree.locateParent cwd path = tree.reach base path.names.dropLast := by
  have hun : tree.Unlinked (base ++ path.names.dropLast) :=
    unlinked.above ((List.prefix_append_right_inj base).mpr (List.dropLast_prefix _))
  rw [locateParent, hc, ho]
  exact walkNames_eq_reach (fun name hn => plain.ordinary name (List.dropLast_subset _ hn)) hun

/-- What becomes of one directory whose path leads straight to a location. -/
theorem makeDirectory_eq {front : List Name} {name : Name} (hc : path.check = .ok ())
    (ho : path.origin cwd = .ok base) (hn : path.names = front ++ [name])
    (plain : path.Plain) (unlinked : tree.Unlinked (base ++ path.names)) :
    tree.makeDirectory cwd path = (do
      let parent ← tree.reach base front
      if name.length > nameLimit then throw .nameTooLong
      else if (tree.get? (parent ++ [name])).isSome then throw .alreadyExists
      else return tree.put (parent ++ [name]) .directory) := by
  have hp := locateParent_eq_reach hc ho plain unlinked
  rw [hn, List.dropLast_concat] at hp
  cases hr : tree.reach base front with
  | error cause =>
    rw [hr] at hp
    simp [makeDirectory, hp, bind, Except.bind]
  | ok parent =>
    rw [hr] at hp
    rw [makeDirectory_of_locateParent hp (by simp [hn]) (plain.ordinary name (by simp [hn]))]
    rfl

/-- A directory that is there shows if all the names are short. -/
theorem presentDirectory_iff (hc : path.check = .ok ()) (ho : path.origin cwd = .ok base)
    (plain : path.Plain) (unlinked : tree.Unlinked (base ++ path.names)) :
    tree.presentDirectory cwd path = true ↔
      (∀ name ∈ path.names, name.length ≤ nameLimit) ∧
        tree.get? (base ++ path.names) = some .directory := by
  have hs : tree.Straight cwd path (base ++ path.names) :=
    ⟨plain, Path.site?_of_origin ho, unlinked⟩
  rw [hs.presentDirectory_eq_true_iff]
  exact and_congr_left fun _ => ⟨fun ha => ha.short, fun hs => ⟨hc, hs⟩⟩

/-- No directory shows behind names that lead nowhere. -/
theorem presentDirectory_of_reach_error {front : List Name} {name : Name}
    (hc : path.check = .ok ()) (ho : path.origin cwd = .ok base) (hn : path.names = front ++ [name])
    (plain : path.Plain) (unlinked : tree.Unlinked (base ++ path.names)) {cause : SystemError}
    (hr : tree.reach base front = .error cause) : tree.presentDirectory cwd path = false := by
  rw [Bool.eq_false_iff]
  intro hp
  obtain ⟨hs, hd⟩ := (presentDirectory_iff hc ho plain unlinked).mp hp
  rw [hn] at hs hd
  have hreach : tree.reach base front = .ok (base ++ front) := by
    refine reach_eq_ok_iff.mpr ⟨rfl, fun other hm => hs other (by simp [hm]), ?_⟩
    exact get?_above hd (by simp) (by simp)
  rw [hreach] at hr
  contradiction

/-- In a directory that is there, one more is created as it is along its name. A failure that leaves
a directory in its place is none. -/
theorem makeDirectory_of_reach {front : List Name} {name : Name} (hc : path.check = .ok ())
    (ho : path.origin cwd = .ok base) (hn : path.names = front ++ [name]) (plain : path.Plain)
    (unlinked : tree.Unlinked (base ++ path.names)) {parent : Location}
    (hr : tree.reach base front = .ok parent) :
    (∃ made, tree.makeDirectory cwd path = .ok made ∧
        tree.growTo (base ++ front) [name] = (.ok (), made)) ∨
      ∃ cause, cause ≠ .notFound ∧ tree.makeDirectory cwd path = .error cause ∧
        tree.growTo (base ++ front) [name] =
          (if tree.presentDirectory cwd path then .ok () else .error cause, tree) := by
  obtain ⟨rfl, hshort, hd⟩ := reach_eq_ok_iff.mp hr
  have hpresent := presentDirectory_iff hc ho plain unlinked
  have hsite : base ++ path.names = (base ++ front) ++ [name] := by simp [hn]
  rw [makeDirectory_eq hc ho hn plain unlinked, hr]
  by_cases hlong : name.length > nameLimit
  · have hp : tree.presentDirectory cwd path = false := by
      rw [Bool.eq_false_iff]
      intro hp
      exact absurd ((hpresent.mp hp).1 name (by simp [hn])) (Nat.not_le.mpr hlong)
    refine .inr ⟨.nameTooLong, by simp, ?_, ?_⟩
    · simp [hlong, bind, Except.bind, throw, throwThe, MonadExceptOf.throw]
    · simp [growTo, requireDirectory_eq_ok_iff.mpr hd, hlong, hp]
  cases hg : tree.get? ((base ++ front) ++ [name]) with
  | none =>
    refine .inl ⟨tree.put ((base ++ front) ++ [name]) .directory, ?_, ?_⟩
    · simp only [hlong, if_false, hg, bind, Except.bind]
      rfl
    · rw [growTo_cons_of_none hd hg hlong, growTo]
  | some entry =>
    have hp : tree.presentDirectory cwd path = true ↔ entry = .directory := by
      have hall : ∀ other ∈ path.names, other.length ≤ nameLimit := by
        simpa [hn, or_imp, forall_and] using ⟨hshort, Nat.not_lt.mp hlong⟩
      rw [hpresent, hsite, hg, Option.some.injEq]
      exact and_iff_right hall
    refine .inr ⟨.alreadyExists, by simp, ?_, ?_⟩
    · simp only [hlong, if_false, hg, Option.isSome_some, if_true, bind, Except.bind, throw,
        throwThe, MonadExceptOf.throw]
    · cases entry with
      | directory =>
        rw [growTo_cons_of_directory hg hlong, growTo, if_pos (hp.mpr rfl)]
      | file content | link target =>
        have hfalse : tree.presentDirectory cwd path = false := by
          rw [Bool.eq_false_iff]
          exact fun h => absurd (hp.mp h) (by simp)
        simp only [growTo, requireDirectory_eq_ok_iff.mpr hd, hlong, if_false, hg, hfalse,
          Bool.false_eq_true]
        rfl

/-- The root is there already. -/
private theorem makeDirectories_root (tree : Tree) (cwd : Option Location) :
    tree.makeDirectories cwd [⟨"/"⟩] = (.ok (), tree) := by
  have hc : (⟨"/"⟩ : Path).check = .ok () := by decide
  have ho : (⟨"/"⟩ : Path).origin cwd = .ok [] := Path.origin_of_isAbsolute (by decide) cwd
  have hwalk : ∀ tail : List Name, (∀ name ∈ tail, name = [] ∨ name = ".") →
      tree.walk .followed linkLimit [] ([] ++ tail) = .ok [] := by
    intro tail staying
    refine (walk_eq_ok_iff (by simp) ?_ staying (.inl (by decide))).mpr ⟨rfl, by simp, ?_⟩
    · intro above hp target
      simp [List.prefix_nil.mp hp]
    · intro above hp _
      simp [List.prefix_nil.mp hp]
  have hparent : tree.locateParent cwd ⟨"/"⟩ = .ok [] := by
    rw [locateParent, hc, ho]
    exact hwalk [Text.encode "."] (by simp)
  have hlocate : tree.locate cwd ⟨"/"⟩ = .ok [] := by
    rw [locate, hc, ho]
    exact hwalk [[]] (by simp)
  have hmake : tree.makeDirectory cwd ⟨"/"⟩ = .error .alreadyExists := by
    rw [makeDirectory, hparent]
    rfl
  have hpresent : tree.presentDirectory cwd ⟨"/"⟩ = true := by
    have hs : tree.status cwd ⟨"/"⟩ = .ok .directory :=
      status_eq_ok_iff.mpr ⟨[], hlocate, get?_root tree⟩
    rw [presentDirectory, hs]
  simp [makeDirectories, hmake, hpresent]

/-- The paths from one that spells some names up to the root or to the working directory. -/
def pathsUp (absolute : Bool) (names : List Name) : List Path :=
  Path.ofNames absolute names :: (Path.properPrefixes names).reverse.map (Path.ofNames absolute)

/-- The paths above a plain path are tried from the nearest on. -/
theorem pathsUp_concat (absolute : Bool) (front : List Name) (name : Name) :
    (Path.properPrefixes (front ++ [name])).reverse.map (Path.ofNames absolute) =
      pathsUp absolute front := by
  simp [pathsUp, Path.properPrefixes_concat]

/-- Where the paths above come to creating along the first names, a path comes to creating along
all of them. -/
private theorem makeDirectories_concat {front : List Name} {name : Name} {parents : List Path}
    (hc : path.check = .ok ()) (ho : path.origin cwd = .ok base)
    (hn : path.names = front ++ [name]) (plain : path.Plain)
    (unlinked : tree.Unlinked (base ++ path.names))
    (hup : tree.makeDirectories cwd parents = tree.growTo base front) :
    tree.makeDirectories cwd (path :: parents) = tree.growTo base (front ++ [name]) := by
  rw [makeDirectories, if_neg plain.bytes_ne_nil, hup]
  cases hr : tree.reach base front with
  | ok parent =>
    rw [growTo_append, growTo_of_reach ⟨_, hr⟩]
    rcases makeDirectory_of_reach hc ho hn plain unlinked hr with
      ⟨made, hm, hg⟩ | ⟨cause, hcause, hm, hg⟩
    · simp [hm, hg]
    · simp only [hm, hg, hcause, if_false]
      split <;> rfl
  | error cause =>
    have hm : tree.makeDirectory cwd path = .error cause := by
      rw [makeDirectory_eq hc ho hn plain unlinked, hr]
      rfl
    have hne := presentDirectory_of_reach_error hc ho hn plain unlinked hr
    by_cases hcause : cause = .notFound
    swap
    · rw [growTo_concat_of_reach_error hr hcause]
      simp [hm, hcause, hne]
    subst hcause
    simp only [hm, if_true]
    rw [growTo_append]
    rcases hgrow : tree.growTo base front with ⟨deeper | ⟨⟩, left⟩
    · have hexists := growTo_ne_alreadyExists hr
      rw [hgrow] at hexists
      have hdeeper : deeper ≠ .alreadyExists := fun he => hexists (congrArg Except.error he)
      simp [hdeeper]
    dsimp only
    by_cases hf : front = []
    · -- There is no directory to start from.
      subst hf
      obtain rfl : tree = left := (Prod.mk.inj hgrow).2
      have hbase : tree.requireDirectory base = .error .notFound := by
        cases hd : tree.requireDirectory base with
        | ok done => simp [reach, hd, bind, Except.bind, pure, Except.pure] at hr
        | error other => simpa [reach, hd, bind, Except.bind] using hr
      simp [hm, growTo, hbase, hne]
    · obtain ⟨hshort, hd⟩ := of_growTo_eq_ok hgrow (.inr hf)
      have hgrown : tree.Grown left (base ++ front) := by
        have hg : tree.Grown (tree.growTo base front).2 (base ++ front) := grown_growTo
        rwa [hgrow] at hg
      have hreach : left.reach base front = .ok (base ++ front) :=
        reach_eq_ok_iff.mpr ⟨rfl, hshort, hd⟩
      rcases makeDirectory_of_reach hc ho hn plain (unlinked.of_grown hgrown) hreach with
        ⟨made, hm, hg⟩ | ⟨cause, -, hm, hg⟩
      · simp [hm, hg]
      · simp only [hm, hg]
        split <;> rfl

/-- Trying a plain path and those above it comes to creating along its names. -/
theorem makeDirectories_eq_growTo {names : List Name} (hn : path.names = names)
    (hnil : names = [] → path = Path.ofNames path.isAbsolute [])
    (hc : names ≠ [] → path.check = .ok ()) (ho : path.origin cwd = .ok base)
    (ordinary : ∀ name ∈ names, Path.IsOrdinary name) (unlinked : tree.Unlinked (base ++ names)) :
    tree.makeDirectories cwd
        (path :: (Path.properPrefixes names).reverse.map (Path.ofNames path.isAbsolute)) =
      tree.growTo base names := by
  induction names using List.reverseRecOn generalizing path with
  | nil =>
    rw [hnil rfl]
    cases path.isAbsolute with
    | false => simp [Path.ofNames, makeDirectories, growTo]
    | true => exact makeDirectories_root tree cwd
  | append_singleton front name ih =>
    have plain : path.Plain := ⟨by simp [hn], fun other ho => (ordinary other (hn ▸ ho)).2⟩
    have hcheck := hc (by simp)
    have hfront : front <+: path.names := hn ▸ List.prefix_append front [name]
    have hpieces : ∀ other ∈ front, other ≠ [] ∧ Path.slash ∉ other := fun other ho =>
      ⟨Path.ne_empty_of_mem_names (hfront.subset ho),
        Path.slash_notMem_of_mem_names (hfront.subset ho)⟩
    have habs : (Path.ofNames path.isAbsolute front).isAbsolute = path.isAbsolute :=
      Path.isAbsolute_ofNames hpieces
    have hup : tree.makeDirectories cwd (pathsUp path.isAbsolute front) =
        tree.growTo base front := by
      have ho' : (Path.ofNames path.isAbsolute front).origin cwd = .ok base := by
        rw [← ho]
        cases cwd <;> simp [Path.origin, Path.start, habs]
      have hih := ih (Path.names_ofNames hpieces) (by rintro rfl; rw [habs])
        (fun hne => Path.check_ofNames hfront hne hcheck) ho'
        (fun other hm => ordinary other (by simp [hm]))
        (unlinked.above ((List.prefix_append_right_inj base).mpr (List.prefix_append _ _)))
      rwa [habs] at hih
    rw [← hn] at unlinked
    rw [pathsUp_concat]
    exact makeDirectories_concat hcheck ho hn plain unlinked hup

/-! ### Creating a directory -/

/-- Only a relative path has nowhere to start, when the working directory is gone. -/
theorem Path.relative_of_origin_error {cause : SystemError} (h : path.origin cwd = .error cause) :
    cwd = none ∧ path.isAbsolute = false := by
  cases cwd with
  | some here => simp [Path.origin] at h
  | none =>
    refine ⟨rfl, ?_⟩
    simp only [Path.origin] at h
    split at h
    · simp at h
    · next ha => simpa using ha

/-- Without a working directory a relative path leads nowhere, whatever the files are. -/
private theorem exists_makeDirectory_eq_error (relative : path.isAbsolute = false) :
    ∃ cause, ∀ tree : Tree, tree.makeDirectory none path = .error cause ∧
      tree.presentDirectory none path = false := by
  have horigin : path.origin none = .error .notFound := by simp [Path.origin, relative]
  cases hc : path.check with
  | ok accepted =>
    refine ⟨.notFound, fun tree => ⟨?_, ?_⟩⟩
    · simp [makeDirectory, locateParent, hc, horigin, bind, Except.bind]
    · simp [presentDirectory, status, locate, hc, horigin, bind, Except.bind]
  | error cause =>
    refine ⟨cause, fun tree => ⟨?_, ?_⟩⟩
    · simp [makeDirectory, locateParent, hc, bind, Except.bind]
    · simp [presentDirectory, status, locate, hc, bind, Except.bind]

/-- Without a working directory relative paths lead nowhere, whatever the files are. -/
private theorem exists_makeDirectories_eq_error {parents : List Path}
    (relative : ∀ other ∈ path :: parents, other.isAbsolute = false) (htext : path.bytes ≠ []) :
    ∃ cause, ∀ tree : Tree,
      tree.makeDirectories none (path :: parents) = (.error cause, tree) := by
  induction parents generalizing path with
  | nil =>
    obtain ⟨cause, hcause⟩ := exists_makeDirectory_eq_error (relative path List.mem_cons_self)
    refine ⟨cause, fun tree => ?_⟩
    obtain ⟨hm, hp⟩ := hcause tree
    by_cases he : cause = .notFound <;> simp [makeDirectories, htext, hm, hp, he]
  | cons parent parents ih =>
    obtain ⟨cause, hcause⟩ := exists_makeDirectory_eq_error (relative path List.mem_cons_self)
    by_cases he : cause = .notFound
    swap
    · refine ⟨cause, fun tree => ?_⟩
      obtain ⟨hm, hp⟩ := hcause tree
      rw [makeDirectories, if_neg htext, hm]
      simp [he, hp]
    subst he
    by_cases hparent : parent.bytes = []
    · refine ⟨.notFound, fun tree => ?_⟩
      obtain ⟨hm, hp⟩ := hcause tree
      rw [makeDirectories, if_neg htext, hm, makeDirectories, if_pos hparent]
      simp [hm, hp]
    · obtain ⟨deeper, hdeeper⟩ :=
        ih (fun other ho => relative other (List.mem_cons_of_mem path ho)) hparent
      refine ⟨deeper, fun tree => ?_⟩
      rw [makeDirectories, if_neg htext, (hcause tree).1]
      simp [hdeeper]

/-- A plain path that the system accepts creates along its names. Any other fails in one way and
changes no file. -/
theorem createDirectory_eq (plain : path.Plain) (cwd : Option Location) :
    (∃ cause, ∀ tree : Tree, tree.createDirectory cwd path = (.error cause, tree)) ∨
      path.check = .ok () ∧ ∃ base, path.origin cwd = .ok base ∧
        ∀ tree : Tree, tree.Unlinked (base ++ path.names) →
          tree.createDirectory cwd path = tree.growTo base path.names := by
  have htext := plain.bytes_ne_nil
  have hparents := plain.parents_eq
  cases hc : path.check with
  | error cause =>
    have hne : cause ≠ .notFound := by
      rintro rfl
      simp only [Path.check, if_neg htext] at hc
      split at hc
      · simp at hc
      · split at hc <;> simp at hc
    refine .inl ⟨cause, fun tree => ?_⟩
    have hm : tree.makeDirectory cwd path = .error cause := by
      simp [makeDirectory, locateParent, hc, bind, Except.bind]
    have hp : tree.presentDirectory cwd path = false := by
      simp [presentDirectory, status, locate, hc, bind, Except.bind]
    simp [createDirectory, makeDirectories, htext, hm, hp, hne]
  | ok accepted =>
    cases ho : path.origin cwd with
    | ok base =>
      refine .inr ⟨rfl, base, rfl, fun tree unlinked => ?_⟩
      rw [createDirectory, hparents]
      exact makeDirectories_eq_growTo rfl (fun hn => absurd hn plain.named) (fun _ => hc) ho
        plain.ordinary unlinked
    | error cause =>
      obtain ⟨rfl, hrel⟩ := Path.relative_of_origin_error ho
      refine .inl (exists_makeDirectories_eq_error (fun other hm => ?_) htext)
      rcases List.mem_cons.mp hm with rfl | hm
      · exact hrel
      · rw [hparents] at hm
        obtain ⟨part, hpart, rfl⟩ := List.mem_map.mp hm
        have hpart := Path.prefix_of_mem_properPrefixes (List.mem_reverse.mp hpart)
        rw [Path.isAbsolute_ofNames fun name hn => ⟨Path.ne_empty_of_mem_names (hpart.subset hn),
          Path.slash_notMem_of_mem_names (hpart.subset hn)⟩, hrel]

/-- The files after a directory has been created where its path leads straight to a location. -/
theorem grown_createDirectory {site : Location} (plain : path.Plain)
    (unlinked : tree.Unlinked site) (spells : ∀ place, path.site? cwd = some place → place = site) :
    tree.Grown (tree.createDirectory cwd path).2 site := by
  rcases createDirectory_eq plain cwd with ⟨cause, hstuck⟩ | ⟨-, base, hbase, hgrow⟩
  · rw [hstuck]
    exact .refl tree site
  · obtain rfl := spells _ (Path.site?_of_origin hbase)
    rw [hgrow tree unlinked]
    exact grown_growTo

/-- After a directory has been created, directories lead to it and all else is as it was. -/
theorem get?_createDirectory {site : Location} (plain : path.Plain)
    (unlinked : tree.Unlinked site) (spells : ∀ place, path.site? cwd = some place → place = site)
    (h : (tree.createDirectory cwd path).1 = .ok ()) :
    path.site? cwd = some site ∧ path.Accepted ∧
      ∀ location, (tree.createDirectory cwd path).2.get? location =
        if location <+: site then some .directory else tree.get? location := by
  have hgrown := grown_createDirectory plain unlinked spells
  rcases createDirectory_eq plain cwd with ⟨cause, hstuck⟩ | ⟨hc, base, hbase, hgrow⟩
  · rw [hstuck] at h
    contradiction
  · have hsite := Path.site?_of_origin hbase
    obtain rfl := spells _ hsite
    rw [hgrow tree unlinked] at h hgrown ⊢
    obtain ⟨hshort, hd⟩ := of_growTo_eq_ok (Prod.ext h rfl) (.inr plain.named)
    refine ⟨hsite, ⟨hc, hshort⟩, fun location => ?_⟩
    split
    · next hp =>
      by_cases he : location = base ++ path.names
      · rw [he]
        exact hd
      · exact get?_above hd hp he
    · next hp => exact (hgrown location).resolve_right fun hn => hp hn.1

end Bootstage.Tree
