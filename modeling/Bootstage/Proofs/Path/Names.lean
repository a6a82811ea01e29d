import Bootstage.Proofs.Text.Splitting
import Bootstage.Tree.Walk

/-!
# The names on a path

The names on a joined path are those of its two sides, and the paths above a path lose its names
one at a time. A plain path has at least one name, and each of its names leads one step down; such
a path spells the location that it leads to when no link is on the way.
-/

namespace Bootstage

namespace Path

@[simp] theorem names_empty : (⟨[]⟩ : Path).names = [] := by decide

/-- The names in front of a slash come before those behind it. -/
theorem names_append_slash (left right : Text.Bytes) :
    (⟨left ++ slash :: right⟩ : Path).names = (⟨left⟩ : Path).names ++ (⟨right⟩ : Path).names := by
  simp [names, List.splitOn_append_cons_self]

/-- No name on a path is empty. -/
theorem ne_empty_of_mem_names {path : Path} {name : Name} (h : name ∈ path.names) :
    name ≠ [] := by
  simpa [names] using (List.mem_filter.mp h).2

/-- No name on a path holds a slash. -/
theorem slash_notMem_of_mem_names {path : Path} {name : Name} (h : name ∈ path.names) :
    slash ∉ name :=
  Text.notMem_of_mem_splitOn (List.mem_filter.mp h).1

/-- A path that ends in a slash has something in front of it. -/
private theorem exists_front_of_endsInSlash {path : Path} (h : path.endsInSlash = true) :
    ∃ front, path.bytes = front ++ [slash] :=
  List.getLast?_eq_some_iff.mp (by simpa [endsInSlash] using h)

/-- A relative path adds its names to those of the path it is seen from. -/
theorem names_join {base right : Path} (h : right.isAbsolute = false) :
    (base.join right).names = base.names ++ right.names := by
  simp only [join, h, Bool.false_eq_true, if_false]
  split
  · next hb =>
    cases hb with
    | inl hb =>
      have he : base = ⟨[]⟩ := by cases base; simp_all
      simp [he]
    | inr hb =>
      obtain ⟨front, hf⟩ := exists_front_of_endsInSlash hb
      have hbase : base.names = (⟨front⟩ : Path).names := by
        have hs := names_append_slash front []
        cases base
        simp_all
      rw [hf, List.append_assoc, List.singleton_append, names_append_slash, hbase]
  · exact names_append_slash base.bytes right.bytes

/-- A relative path does not change where the path it is seen from starts. -/
theorem isAbsolute_join {base right : Path} (h : right.isAbsolute = false) :
    (base.join right).isAbsolute = base.isAbsolute := by
  simp only [join, h, Bool.false_eq_true, if_false]
  by_cases he : base.bytes = []
  · simp only [he, true_or, if_true, List.nil_append]
    simpa [isAbsolute, he] using h
  · obtain ⟨first, rest, hb⟩ := List.exists_cons_of_ne_nil he
    split <;> simp [isAbsolute, hb]

/-- What is left of an accepted path is accepted unless nothing is left. -/
theorem check_of_sublist {path other : Path} (hne : other.bytes ≠ [])
    (hpart : other.bytes.Sublist path.bytes) (hc : path.check = .ok ()) :
    other.check = .ok () := by
  have hsize := hpart.length_le
  simp only [check] at hc ⊢
  split at hc
  · contradiction
  · next hnul =>
    split at hc
    · contradiction
    · split at hc
      · contradiction
      · next hlong =>
        have hnul' : ¬ other.bytes.contains 0 = true := by
          simp only [List.contains_iff_mem] at hnul ⊢
          exact fun hm => hnul (hpart.subset hm)
        rw [if_neg hnul', if_neg hne, if_neg (by omega)]

/-- A path is accepted if it is accepted with more behind it. -/
theorem check_of_join {base right : Path} (h : right.isAbsolute = false) (hne : base.bytes ≠ [])
    (hc : (base.join right).check = .ok ()) : base.check = .ok () := by
  refine check_of_sublist hne ?_ hc
  simp only [join, h, Bool.false_eq_true, if_false]
  split <;> exact List.sublist_append_left ..

/-! ### Plain paths -/

/-- A name leads one step down unless it stays or goes up. -/
def IsOrdinary (name : Name) : Prop :=
  name ≠ [] ∧ name ≠ "." ∧ name ≠ ".."

/-- A path on which there is a name, and every name leads one step down. -/
structure Plain (path : Path) : Prop where
  /-- There is a name. -/
  named : path.names ≠ []
  /-- No name stays or goes up. -/
  descends : ∀ name ∈ path.names, name ≠ "." ∧ name ≠ ".."

theorem Plain.bytes_ne_nil {path : Path} (h : path.Plain) : path.bytes ≠ [] := by
  intro he
  have he : path = ⟨[]⟩ := by cases path; simp_all
  exact h.named (he ▸ names_empty)

/-- The names on a plain path are ordinary. -/
theorem Plain.ordinary {path : Path} (h : path.Plain) : ∀ name ∈ path.names, IsOrdinary name :=
  fun name hn => ⟨ne_empty_of_mem_names hn, h.descends name hn⟩

/-- A relative plain path behind a plain path makes a plain path. -/
theorem Plain.join {base right : Path} (hb : base.Plain) (hr : right.Plain)
    (h : right.isAbsolute = false) : (base.join right).Plain where
  named := by
    rw [names_join h]
    simp [hb.named]
  descends := by
    rw [names_join h]
    intro name hn
    cases List.mem_append.mp hn with
    | inl hn => exact hb.descends name hn
    | inr hn => exact hr.descends name hn

/-- The names of a plain path are all its steps. -/
theorem Plain.steps_eq {path : Path} (h : path.Plain) : path.steps = path.names := by
  rw [steps, List.filter_eq_self]
  intro name hn
  simpa using (h.descends name hn).1

/-- The location that a path spells: its names behind the directory at which its walk starts. -/
def site? (path : Path) (cwd : Option Location) : Option Location :=
  if path.isAbsolute then some path.names else cwd.map (· ++ path.names)

/-- A path that can be walked from somewhere spells a location. -/
theorem site?_of_origin {path : Path} {cwd : Option Location} {base : Location}
    (h : path.origin cwd = .ok base) : path.site? cwd = some (base ++ path.names) := by
  cases ha : path.isAbsolute <;> cases cwd <;> simp_all [origin, start, site?]

/-- A path that spells a location can be walked from a directory above it. -/
theorem exists_origin_of_site? {path : Path} {cwd : Option Location} {site : Location}
    (h : path.site? cwd = some site) :
    ∃ base, path.origin cwd = .ok base ∧ site = base ++ path.names := by
  cases ha : path.isAbsolute <;> cases cwd <;> simp_all [origin, start, site?]

/-- A relative path leads on by its names from the place that is spelled in front of it. -/
theorem site?_join {base right : Path} (h : right.isAbsolute = false) (cwd : Option Location) :
    (base.join right).site? cwd = (base.site? cwd).map (· ++ right.names) := by
  cases cwd <;> simp only [site?, isAbsolute_join h, names_join h] <;> split <;> simp

/-! ### Names behind a path -/

/-- Bytes that are the one name on their path, which leads one step down. -/
structure IsName (name : Name) : Prop where
  /-- The bytes are one name. -/
  names : (⟨name⟩ : Path).names = [name]
  /-- It neither stays nor goes up. -/
  descends : name ≠ "." ∧ name ≠ ".."

namespace IsName

variable {name : Name}

theorem slash_notMem (h : IsName name) : slash ∉ name :=
  @slash_notMem_of_mem_names ⟨name⟩ name (by simp [h.names])

theorem ne_empty (h : IsName name) : name ≠ [] :=
  @ne_empty_of_mem_names ⟨name⟩ name (by simp [h.names])

theorem isAbsolute (h : IsName name) : (⟨name⟩ : Path).isAbsolute = false := by
  cases hh : name.head? with
  | none => simp [Path.isAbsolute, hh]
  | some byte =>
    have hne : byte ≠ slash := fun e => h.slash_notMem (List.mem_of_head? (e ▸ hh))
    simpa [Path.isAbsolute, hh] using hne

theorem plain (h : IsName name) : (⟨name⟩ : Path).Plain where
  named := by simp [h.names]
  descends := by simpa [h.names] using h.descends

/-- A name behind a plain path makes a plain path. -/
theorem plain_join (h : IsName name) {base : Path} (hb : base.Plain) :
    (base / name).Plain :=
  hb.join h.plain h.isAbsolute

/-- A name leads one step down from the place that is spelled in front of it. -/
theorem site?_join (h : IsName name) (base : Path) (cwd : Option Location) :
    (base / name).site? cwd = (base.site? cwd).map (· ++ [name]) := by
  rw [← h.names]
  exact Path.site?_join h.isAbsolute cwd

/-- No slash stands behind a name. -/
theorem endsInSlash_join (h : IsName name) (base : Path) : (base / name).endsInSlash = false := by
  have hlast : ∀ front : Text.Bytes, (⟨front ++ name⟩ : Path).endsInSlash = false := by
    intro front
    have hl := List.getLast?_eq_some_getLast h.ne_empty
    have hc : name.getLast h.ne_empty ≠ slash := fun e =>
      h.slash_notMem (e ▸ List.getLast_mem h.ne_empty)
    simpa [endsInSlash, List.getLast?_append, hl] using hc
  show (base.join ⟨name⟩).endsInSlash = false
  simp only [join, h.isAbsolute, Bool.false_eq_true, if_false]
  split
  · exact hlast base.bytes
  · simpa using hlast (base.bytes ++ [slash])

end IsName

/-! ### The paths above a plain path -/

/-- The path that spells names from the root or from the working directory. -/
def ofNames (absolute : Bool) (names : List Name) : Path :=
  ⟨(if absolute then [slash] else []) ++ [slash].intercalate names⟩

/-- Names are read back from between the slashes. -/
private theorem names_join_slash {names : List Name}
    (h : ∀ name ∈ names, name ≠ [] ∧ slash ∉ name) :
    (⟨[slash].intercalate names⟩ : Path).names = names := by
  by_cases hn : names = []
  · simp [hn]
  · rw [Path.names, List.splitOn_intercalate slash (fun name hm => (h name hm).2) hn,
      List.filter_eq_self]
    intro name hm
    simpa using (h name hm).1

/-- Names are read back from the path that is made of them. -/
theorem names_ofNames {absolute : Bool} {names : List Name}
    (h : ∀ name ∈ names, name ≠ [] ∧ slash ∉ name) :
    (ofNames absolute names).names = names := by
  cases absolute
  · simpa [ofNames] using names_join_slash h
  · have hs := names_append_slash [] ([slash].intercalate names)
    simpa [ofNames, names_join_slash h] using hs

/-- Joined names do not start with a slash. -/
private theorem isAbsolute_join_slash {names : List Name}
    (h : ∀ name ∈ names, name ≠ [] ∧ slash ∉ name) :
    (⟨[slash].intercalate names⟩ : Path).isAbsolute = false := by
  cases names with
  | nil => decide
  | cons name rest =>
    have hn := h name List.mem_cons_self
    cases hc : name with
    | nil => exact absurd hc hn.1
    | cons byte others =>
      have hne : byte ≠ slash := fun e => hn.2 (by simp [hc, e])
      cases rest <;> simp [isAbsolute, hne]

/-- The path that is made of names starts where it was to start. -/
theorem isAbsolute_ofNames {absolute : Bool} {names : List Name}
    (h : ∀ name ∈ names, name ≠ [] ∧ slash ∉ name) :
    (ofNames absolute names).isAbsolute = absolute := by
  cases absolute
  · simpa [ofNames] using isAbsolute_join_slash h
  · simp [ofNames, isAbsolute]

/-- The anchored steps are the names behind the anchor. -/
private theorem ofSteps_eq_ofNames {absolute : Bool} {names : List Name}
    (h : ∀ name ∈ names, name ≠ [] ∧ slash ∉ name) :
    ofSteps (if absolute then [slash] else []) names = ofNames absolute names := by
  have hr := isAbsolute_join_slash h
  cases absolute <;> simp [ofSteps, Path.join, hr, ofNames, endsInSlash]

/-- The longest proper prefix lacks the last item. -/
theorem properPrefixes_concat {α : Type} (items : List α) (item : α) :
    properPrefixes (items ++ [item]) = properPrefixes items ++ [items] := by
  induction items with
  | nil => rfl
  | cons first items ih => simp [properPrefixes, ih]

theorem prefix_of_mem_properPrefixes {α : Type} {items part : List α}
    (h : part ∈ properPrefixes items) : part <+: items := by
  induction items generalizing part with
  | nil => simp [properPrefixes] at h
  | cons first items ih =>
    rcases List.mem_cons.mp h with rfl | h
    · exact List.nil_prefix
    · obtain ⟨rest, hr, rfl⟩ := List.mem_map.mp h
      exact (List.prefix_cons_inj first).mpr (ih hr)

/-- The paths above a plain path spell its names without the last, without the last two, and so
on. -/
theorem Plain.parents_eq {path : Path} (h : path.Plain) :
    path.parents = (properPrefixes path.names).reverse.map (ofNames path.isAbsolute) := by
  have hd : path.names.head? ≠ some (Text.encode ".") := by
    intro e
    exact (h.descends "." (List.mem_of_head? e)).1 rfl
  have ha : path.anchor = if path.isAbsolute then [slash] else [] := by simp [anchor, hd]
  have hne : path.anchor ≠ "." := by
    rw [ha]
    split <;> decide
  simp only [parents, hne, if_false, h.steps_eq]
  apply List.map_congr_left
  intro part hp
  split
  · next he => simp [List.isEmpty_iff.mp he, ha, ofNames]
  · rw [ha]
    apply ofSteps_eq_ofNames
    intro name hn
    have hm := (prefix_of_mem_properPrefixes (List.mem_reverse.mp hp)).subset hn
    exact ⟨ne_empty_of_mem_names hm, slash_notMem_of_mem_names hm⟩

/-- The path through some of the names of a path is joined from some of its pieces. -/
theorem exists_sublist_split {path : Path} {part : List Name} (h : part <+: path.names)
    (named : part ≠ []) :
    ∃ pieces, pieces.Sublist (path.bytes.splitOn slash) ∧
      (ofNames path.isAbsolute part).bytes = [slash].intercalate pieces := by
  cases ha : path.isAbsolute with
  | false => exact ⟨part, h.sublist.trans List.filter_sublist, by simp [ofNames]⟩
  | true =>
    obtain ⟨rest, hrest⟩ := List.head?_eq_some_iff.mp (by simpa [isAbsolute] using ha)
    have hsplit : path.bytes.splitOn slash = [] :: rest.splitOn slash := by
      simp [hrest, List.splitOn_cons_eq_if_modifyHead]
    have hnames : path.names = (rest.splitOn slash).filter (· ≠ []) := by
      simp [names, hsplit]
    refine ⟨[] :: part, ?_, ?_⟩
    · rw [hsplit]
      rw [hnames] at h
      exact (h.sublist.trans List.filter_sublist).cons_cons []
    · rw [List.intercalate_cons_of_ne_nil named]
      simp [ofNames]

/-- The paths above an accepted path are accepted. -/
theorem check_ofNames {path : Path} {part : List Name} (h : part <+: path.names)
    (named : part ≠ []) (hc : path.check = .ok ()) :
    (ofNames path.isAbsolute part).check = .ok () := by
  obtain ⟨pieces, hs, ht⟩ := exists_sublist_split h named
  have hne : (ofNames path.isAbsolute part).bytes ≠ [] := by
    intro he
    have hempty : ofNames path.isAbsolute part = ⟨[]⟩ := by
      rw [← he]
    have hn : (ofNames path.isAbsolute part).names = part := names_ofNames fun name hm =>
      ⟨ne_empty_of_mem_names (h.subset hm), slash_notMem_of_mem_names (h.subset hm)⟩
    rw [hempty, names_empty] at hn
    exact named hn.symm
  have hpart := Text.intercalate_sublist hs [slash]
  rw [List.intercalate_splitOn, ← ht] at hpart
  exact check_of_sublist hne hpart hc

end Path

end Bootstage
