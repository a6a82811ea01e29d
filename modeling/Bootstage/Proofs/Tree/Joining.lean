import Bootstage.Proofs.Tree.Placing
import Bootstage.Proofs.Tree.Writing

/-!
# Walking a joined path

A walk along the names of a joined path goes along those of its left side and then, from where that
leads, along those of its right side. Only the links that are followed on the left count for the
right as well. So a program that starts in a directory and names a path from there means the same
place as one that names it behind the path of the directory, as long as that is not too long and
leads through not too many links.
-/

namespace Bootstage

/-! ### Joined paths -/

namespace Path

variable {base right : Path}

/-- The bytes of a joined path are those of its left side, at most a slash, and those of its
right. -/
theorem bytes_join (base : Path) (h : right.isAbsolute = false) :
    (base.join right).bytes =
      base.bytes ++ (if base.bytes = [] ∨ base.endsInSlash then [] else [slash]) ++
        right.bytes := by
  simp only [join, h, Bool.false_eq_true, if_false]
  split <;> simp

/-- A joined path is empty only if both sides are. -/
theorem bytes_join_ne_nil (base : Path) (h : right.isAbsolute = false)
    (written : base.bytes ≠ [] ∨ right.bytes ≠ []) : (base.join right).bytes ≠ [] := by
  intro he
  rw [bytes_join base h, List.append_eq_nil_iff, List.append_eq_nil_iff] at he
  exact written.elim (· he.1.1) (· he.2)

/-- A joined path ends in a slash exactly if its right side does. -/
theorem endsInSlash_join (base : Path) (h : right.isAbsolute = false) (written : right.bytes ≠ []) :
    (base.join right).endsInSlash = right.endsInSlash := by
  rw [endsInSlash, endsInSlash, bytes_join base h, List.getLast?_append_of_ne_nil _ written]

/-- Names may be put behind a path one after the other, or all at once. -/
theorem join_join (base : Path) {middle : Path} (hm : middle.isAbsolute = false)
    (written : middle.bytes ≠ []) (right : Path) :
    (base.join middle).join right = base.join (middle.join right) := by
  cases h : right.isAbsolute with
  | true => rw [join_of_isAbsolute h, join_of_isAbsolute h, join_of_isAbsolute h]
  | false =>
    have hmr : (middle.join right).isAbsolute = false := (isAbsolute_join h).trans hm
    have hbytes :
        ((base.join middle).join right).bytes = (base.join (middle.join right)).bytes := by
      rw [bytes_join _ h, bytes_join _ hmr, bytes_join middle h, endsInSlash_join base hm written]
      simp only [bytes_join_ne_nil base hm (.inr written), written, false_or]
      rw [bytes_join base hm]
      simp only [List.append_assoc]
    exact congrArg Path.mk hbytes

/-- A relative right side does not change the origin of a path. -/
theorem origin_join (base : Path) (h : right.isAbsolute = false) (cwd : Option Location) :
    (base.join right).origin cwd = base.origin cwd := by
  cases cwd <;> simp [origin, start, isAbsolute_join h]

/-- A joined path is walked along the left side and then along the right one. -/
theorem walked_join (h : right.isAbsolute = false) (written : right.bytes ≠ []) :
    (base.join right).walked = base.names ++ right.walked := by
  rw [walked, walked, endsInSlash_join base h written, names_join h]
  split
  · rw [List.append_assoc]
  · rfl

/-- Behind an accepted path a path is accepted as it is by itself, unless both are too long. -/
theorem check_join (h : right.isAbsolute = false) (written : right.bytes ≠ [])
    (hb : base.check = .ok ()) :
    (base.join right).check = right.check ∨ (base.join right).check = .error .nameTooLong := by
  have hbytes := bytes_join base h
  have hclean : 0 ∉ base.bytes := by
    intro hm
    simp [check, hm] at hb
  have hnul : (base.join right).bytes.contains 0 = right.bytes.contains 0 := by
    have hg : 0 ∉ (if base.bytes = [] ∨ base.endsInSlash then [] else [slash]) := by
      split <;> decide
    rw [Bool.eq_iff_iff, hbytes]
    simp [hclean, hg]
  have hne := bytes_join_ne_nil base h (.inr written)
  have hsize : right.bytes.length ≤ (base.join right).bytes.length := by
    rw [hbytes, List.length_append]
    omega
  rw [check, check, hnul, if_neg hne, if_neg written]
  by_cases hlong : (base.join right).bytes.length > pathLimit
  · simp only [hlong, if_true]
    split
    · exact .inl rfl
    · exact .inr rfl
  · have hshort : ¬ right.bytes.length > pathLimit := by omega
    simp only [hlong, hshort, if_false]
    exact .inl trivial

end Path

namespace Tree

/-! ### One name -/

/-- What one name does that others follow. -/
inductive Turn
  /-- It cannot be walked. -/
  | refused (cause : SystemError)
  /-- It leads to a location. -/
  | leads (there : Location)
  /-- A link is to be followed. -/
  | linked (target : Text.Bytes)

/-- What a name does at a location when others follow. -/
def turn (tree : Tree) (here : Location) (name : Name) : Turn :=
  match tree.get? here with
  | none => .refused .notFound
  | some (.file _) => .refused .notDirectory
  | some (.link _) => .refused .notDirectory
  | some .directory =>
    if name = [] ∨ name = "." then .leads here
    else if name = ".." then .leads here.dropLast
    else if name.length > nameLimit then .refused .nameTooLong
    else
      match tree.get? (here ++ [name]) with
      | some (.link target) => .linked target
      | _ => .leads (here ++ [name])

variable {tree : Tree} {last : LastName} {here : Location}

/-- A name that others follow is walked in the same way whatever is done at the last. -/
theorem walkNames_cons_eq_turn
    {onLink : Location → Text.Bytes → List Name → Except SystemError Location} {name : Name}
    {rest : List Name} (hopened : ¬(last = .created ∧ rest = [[]]))
    (hkept : ¬(last = .kept ∧ rest = [])) :
    tree.walkNames last onLink here (name :: rest) =
      match tree.turn here name with
      | .refused cause => .error cause
      | .leads there => tree.walkNames last onLink there rest
      | .linked target => onLink here target rest := by
  rw [walkNames, turn]
  cases tree.get? here with
  | none => rfl
  | some entry =>
    cases entry with
    | file content => rfl
    | link target => rfl
    | directory =>
      simp only [hopened, hkept, if_false]
      split
      · rfl
      split
      · rfl
      split
      · rfl
      · cases tree.get? (here ++ [name]) with
        | none => rfl
        | some entry => cases entry <;> rfl

/-! ### Names behind names -/

/-- The names lead on: there are some, and not only a slash behind a file that is to be created. -/
def Onward (last : LastName) (rest : List Name) : Prop :=
  ¬(last = .created ∧ rest = [[]]) ∧ rest ≠ []

/-- What leads onward behind some names does so behind more of them. -/
theorem Onward.append {rest : List Name} (h : Onward last rest) (front : List Name) :
    Onward last (front ++ rest) := by
  refine ⟨?_, fun he => h.2 (List.append_eq_nil_iff.mp he).2⟩
  rintro ⟨hl, he⟩
  cases front with
  | nil => exact h.1 ⟨hl, he⟩
  | cons first front => exact h.2 (by simp_all)

/-- A walk along names that others may follow: it fails whatever follows, or it comes to a place
from which the others are walked with the links that are left. -/
def Continues (tree : Tree) (links : Nat) (front : Except SystemError Location)
    (whole : LastName → List Name → Except SystemError Location) : Prop :=
  (∃ cause, front = .error cause ∧
      ∀ last rest, Onward last rest → whole last rest = .error cause) ∨
    ∃ middle left, left ≤ links ∧ front = .ok middle ∧
      ∀ last rest, Onward last rest → whole last rest = tree.walk last left middle rest

/-- A walk goes on with more links as with fewer. -/
theorem Continues.mono {fewer links : Nat} {front : Except SystemError Location}
    {whole : LastName → List Name → Except SystemError Location}
    (h : tree.Continues fewer front whole) (hle : fewer ≤ links) :
    tree.Continues links front whole := by
  rcases h with h | ⟨middle, left, hleft, h⟩
  · exact .inl h
  · exact .inr ⟨middle, left, Nat.le_trans hleft hle, h⟩

/-- Along names a walk goes on from where the first of them lead. -/
private theorem continues_walkNames
    {onLink : LastName → Location → Text.Bytes → List Name → Except SystemError Location}
    {links : Nat}
    (stay : ∀ last here rest, tree.walkNames last (onLink last) here rest =
      tree.walk last links here rest)
    (follow : ∀ here target names, tree.Continues links (onLink .followed here target names)
      fun last rest => onLink last here target (names ++ rest)) (front : List Name) :
    tree.Continues links (tree.walkNames .followed (onLink .followed) here front)
      fun last rest => tree.walkNames last (onLink last) here (front ++ rest) := by
  induction front generalizing here with
  | nil => exact .inr ⟨here, links, Nat.le_refl _, rfl, fun last rest _ => stay last here rest⟩
  | cons name front ih =>
    have hfront := @walkNames_cons_eq_turn tree .followed here (onLink .followed) name front
      (by simp) (by simp)
    have hwhole : ∀ last rest, Onward last rest → _ := fun last rest ho =>
      @walkNames_cons_eq_turn tree last here (onLink last) name (front ++ rest)
        (ho.append front).1 fun hk => (ho.append front).2 hk.2
    cases ht : tree.turn here name with
    | refused cause =>
      simp only [ht] at hfront hwhole
      exact .inl ⟨cause, hfront, hwhole⟩
    | leads there =>
      simp only [ht] at hfront hwhole
      rw [hfront]
      rcases @ih there with ⟨cause, he, h⟩ | ⟨middle, left, hle, he, h⟩
      · exact .inl ⟨cause, he, fun last rest ho => (hwhole last rest ho).trans (h last rest ho)⟩
      · exact .inr ⟨middle, left, hle, he,
          fun last rest ho => (hwhole last rest ho).trans (h last rest ho)⟩
    | linked target =>
      simp only [ht] at hfront hwhole
      rw [hfront]
      rcases follow here target front with ⟨cause, he, h⟩ | ⟨middle, left, hle, he, h⟩
      · exact .inl ⟨cause, he, fun last rest ho => (hwhole last rest ho).trans (h last rest ho)⟩
      · exact .inr ⟨middle, left, hle, he,
          fun last rest ho => (hwhole last rest ho).trans (h last rest ho)⟩

/-- A walk along names and others behind them is a walk along the names, and one along the others
from the place that is reached. -/
theorem continues_walk (links : Nat) (here : Location) (front : List Name) :
    tree.Continues links (tree.walk .followed links here front)
      fun last rest => tree.walk last links here (front ++ rest) := by
  induction links generalizing here front with
  | zero =>
    exact @continues_walkNames tree here (fun _ _ _ _ => .error .tooManyLinks) 0
      (fun _ _ _ => rfl) (fun _ _ _ => .inl ⟨_, rfl, fun _ _ _ => rfl⟩) front
  | succ links ih =>
    refine @continues_walkNames tree here (fun last here target rest =>
      tree.walk last links (Path.start here ⟨target⟩) ((⟨target⟩ : Path).walked ++ rest))
      (links + 1) (fun _ _ _ => rfl) (fun here target names => ?_) front
    have h := (ih (Path.start here ⟨target⟩) ((⟨target⟩ : Path).walked ++ names)).mono
      (Nat.le_succ links)
    simpa only [List.append_assoc] using h

/-! ### Fewer links -/

/-- A walk that may follow fewer links leads to the same, or it ends for want of links. -/
private theorem walkNames_of_fewer
    {onLink onLink' : Location → Text.Bytes → List Name → Except SystemError Location}
    (follow : ∀ here target rest, onLink here target rest = .error .tooManyLinks ∨
      onLink here target rest = onLink' here target rest) (names : List Name) :
    tree.walkNames last onLink here names = .error .tooManyLinks ∨
      tree.walkNames last onLink here names = tree.walkNames last onLink' here names := by
  induction names generalizing here with
  | nil => exact .inr rfl
  | cons name rest ih =>
    rw [walkNames, walkNames]
    split
    · exact .inr rfl
    · exact .inr rfl
    · exact .inr rfl
    · split
      · exact ih
      split
      · exact ih
      split
      · exact .inr rfl
      split
      · exact .inr rfl
      split
      · split
        · exact .inr rfl
        · exact follow _ _ _
      · exact ih

/-- With fewer links left a walk goes as it would with more, or there are too many. -/
theorem walk_of_fewer {left links : Nat} (h : left ≤ links) (names : List Name) :
    tree.walk last left here names = .error .tooManyLinks ∨
      tree.walk last left here names = tree.walk last links here names := by
  induction links generalizing left here names with
  | zero =>
    obtain rfl := Nat.le_zero.mp h
    exact .inr rfl
  | succ links ih =>
    cases left with
    | zero => exact walkNames_of_fewer (fun _ _ _ => .inl rfl) names
    | succ left => exact walkNames_of_fewer (fun _ _ _ => ih (Nat.le_of_succ_le_succ h) _) names

/-! ### Joined paths in a tree -/

variable {cwd : Option Location} {base right : Path} {start location : Location}

/-- A path that is not empty leads on from the directory at which it starts. -/
theorem Onward.of_relative (h : right.isAbsolute = false) (written : right.bytes ≠ []) :
    Onward last right.walked := by
  refine ⟨?_, Path.walked_ne_nil written⟩
  rintro ⟨-, hw⟩
  have hnames : right.names ≠ [] := by
    intro hn
    simp [Path.isAbsolute_of_names_eq_nil written hn] at h
  rw [Path.walked] at hw
  split at hw
  · rw [List.append_eq_singleton_iff] at hw
    simp [hnames] at hw
  · have hmem : [] ∈ right.names := by rw [hw]; simp
    exact Path.ne_empty_of_mem_names hmem rfl

/-- Names are walked from a directory only. -/
theorem get?_of_walk {links : Nat} {names : List Name} (hne : names ≠ [])
    (h : tree.walk last links here names = .ok location) : tree.get? here = some .directory := by
  obtain ⟨name, rest, rfl⟩ := List.exists_cons_of_ne_nil hne
  by_contra hd
  cases links <;> exact walkNames_cons_ne_ok hd h

/-- A slash leads nowhere else. -/
private theorem walk_slash {links : Nat} :
    tree.walk .followed links here [[]] = .ok location ↔
      location = here ∧ tree.get? here = some .directory := by
  have hw : ∀ onLink, tree.walkNames .followed onLink here [[]] = .ok location ↔
      location = here ∧ tree.get? here = some .directory := by
    intro onLink
    by_cases hd : tree.get? here = some .directory
    · simp only [walkNames, hd, true_or, if_true, Except.ok.injEq, and_true]
      exact eq_comm
    · simp only [hd, and_false, iff_false]
      exact walkNames_cons_ne_ok hd
  cases links <;> exact hw _

/-- A path that leads somewhere is walked on from there, and one that is walked on leads to a
directory. -/
private theorem walk_walked (tree : Tree) (links : Nat) (here : Location) (path : Path) :
    (∃ cause, tree.walk .followed links here path.walked = .error cause ∧
        ∀ last rest, Onward last rest →
          tree.walk last links here (path.names ++ rest) = .error cause) ∨
      ∃ middle left, left ≤ links ∧
        (∀ start, tree.walk .followed links here path.walked = .ok start → start = middle) ∧
        (tree.get? middle = some .directory →
          tree.walk .followed links here path.walked = .ok middle) ∧
        ∀ last rest, Onward last rest →
          tree.walk last links here (path.names ++ rest) = tree.walk last left middle rest := by
  have hslash : Onward .followed [[]] := ⟨by simp, by simp⟩
  rcases continues_walk links here path.names with ⟨cause, he, h⟩ | ⟨middle, left, hle, hm, h⟩
  · refine .inl ⟨cause, ?_, h⟩
    rw [Path.walked]
    split
    · exact h _ _ hslash
    · exact he
  · refine .inr ⟨middle, left, hle, ?_, ?_, h⟩ <;> rw [Path.walked] <;> split
    · intro start hs
      exact (walk_slash.mp ((h _ _ hslash).symm.trans hs)).1
    · intro start hs
      exact Except.ok.inj (hs.symm.trans hm)
    · intro hd
      exact (h _ _ hslash).trans (walk_slash.mpr ⟨rfl, hd⟩)
    · exact fun _ => hm

/-- A path that is accepted is walked from its origin. -/
theorem locate_eq_walk {path : Path} {origin : Location} (hc : path.check = .ok ())
    (ho : path.origin cwd = .ok origin) :
    tree.locate cwd path last = tree.walk last linkLimit origin path.walked := by
  rw [locate, hc, ho]
  rfl

/-- What a program names from the directory in which it is started is what others name behind the
path of that directory, unless that path is too long or leads through too many links. -/
theorem locate_join (relative : right.isAbsolute = false) (written : right.bytes ≠ [])
    (hb : tree.locate cwd base = .ok start) (last : LastName) :
    tree.locate cwd (base.join right) last = tree.locate (some start) right last ∨
      tree.locate cwd (base.join right) last = .error .nameTooLong ∨
        tree.locate cwd (base.join right) last = .error .tooManyLinks := by
  obtain ⟨⟨⟩, hc, hw⟩ := Except.bind_eq_ok_iff.mp hb
  obtain ⟨origin, ho, hw⟩ := Except.bind_eq_ok_iff.mp hw
  have hjoined := Path.origin_join base relative cwd
  have hstart : right.origin (some start) = .ok start := by
    simp [Path.origin, Path.start, relative]
  cases hcheck : (base.join right).check with
  | error cause =>
    have he : tree.locate cwd (base.join right) last = .error cause := by
      rw [locate, hcheck]
      rfl
    rcases Path.check_join relative written hc with h | h
    · refine .inl (he.trans ?_)
      rw [locate, ← h, hcheck]
      rfl
    · obtain rfl : cause = .nameTooLong := Except.error.inj (hcheck.symm.trans h)
      exact .inr (.inl he)
  | ok accepted =>
    have hright : right.check = .ok () := by
      rcases Path.check_join relative written hc with h | h
      · exact h.symm.trans hcheck
      · simp [h] at hcheck
    rw [locate_eq_walk hcheck (hjoined.trans ho), locate_eq_walk hright hstart,
      Path.walked_join relative written]
    rcases walk_walked tree linkLimit origin base with
      ⟨cause, he, -⟩ | ⟨middle, left, hle, hmiddle, -, h⟩
    · simp [hw] at he
    · obtain rfl := hmiddle start hw
      rw [h _ _ (.of_relative relative written)]
      rcases walk_of_fewer hle right.walked with hfew | hsame
      · exact .inr (.inr hfew)
      · exact .inl hsame

/-- The way to a joined path goes through the directory on its left. -/
theorem exists_locate_of_join (relative : right.isAbsolute = false) (written : right.bytes ≠ [])
    (based : base.bytes ≠ []) (h : tree.locate cwd (base.join right) last = .ok location) :
    ∃ start, tree.locate cwd base = .ok start ∧ tree.get? start = some .directory := by
  obtain ⟨⟨⟩, hc, hw⟩ := Except.bind_eq_ok_iff.mp h
  obtain ⟨origin, ho, hw⟩ := Except.bind_eq_ok_iff.mp hw
  rw [Path.origin_join base relative] at ho
  rw [Path.walked_join relative written] at hw
  rw [locate_eq_walk (Path.check_of_join relative based hc) ho]
  rcases walk_walked tree linkLimit origin base with
    ⟨cause, -, h⟩ | ⟨middle, left, -, -, hmiddle, h⟩
  · rw [h _ _ (.of_relative relative written)] at hw
    simp at hw
  · rw [h _ _ (.of_relative relative written)] at hw
    have hd := get?_of_walk (Path.walked_ne_nil written) hw
    exact ⟨middle, hmiddle hd, hd⟩

end Tree

end Bootstage
