import Mathlib.Data.List.Infix
import Bootstage.BootEnvironment.Descriptor

/-!
# What is recovered from a descriptor

The texts of a provenance are put into a descriptor as they are. A descriptor is still one line for
each key, as long as there is one line in each text. And it still tells which provenance it was made
from: the revision ends at the mark or at the first blank, the date at the next comma, and the
branch, whatever is in it, where the lines begin that are always the same.
-/

namespace Bootstage

namespace Text

/-! ### Dividing texts -/

variable {separator : Char} {chars front back piece : List Char}

/-- What is left when a piece is dropped in front. -/
theorem dropPrefix?_eq_some_iff : chars.dropPrefix? piece = some back ↔ chars = piece ++ back := by
  simp [List.dropPrefix?_eq_some_iff]

/-- What is left when a piece is dropped at the end. -/
theorem dropSuffix?_eq_some_iff :
    chars.dropSuffix? piece = some front ↔ chars = front ++ piece := by
  simp [List.dropSuffix?_eq_some_iff]

/-- The characters in front of the first separator and those behind it. -/
def divide (separator : Char) : List Char → Option (List Char × List Char)
  | [] => none
  | c :: rest =>
    if c = separator then some ([], rest)
    else (divide separator rest).map fun (front, back) => (c :: front, back)

/-- A list is divided at the first separator. -/
theorem divide_append (h : separator ∉ front) :
    divide separator (front ++ separator :: back) = some (front, back) := by
  induction front with
  | nil => simp [divide]
  | cons c front ih =>
    rw [List.mem_cons, not_or] at h
    obtain ⟨hc, hfront⟩ := h
    simp [divide, Ne.symm hc, ih hfront]

/-- A division shows what stood in front of the separator and what stood behind it. -/
theorem divide_eq_some_iff :
    divide separator chars = some (front, back) ↔
      chars = front ++ separator :: back ∧ separator ∉ front := by
  refine ⟨fun h => ?_, fun ⟨he, hfront⟩ => he ▸ divide_append hfront⟩
  induction chars generalizing front with
  | nil => simp [divide] at h
  | cons c rest ih =>
    rw [divide] at h
    split at h
    · next hc =>
      obtain ⟨rfl, rfl⟩ := Prod.mk.inj (Option.some.inj h)
      exact ⟨congrArg (· :: rest) hc, List.not_mem_nil⟩
    · next hc =>
      obtain ⟨⟨head, tail⟩, hdivide, he⟩ := Option.map_eq_some_iff.mp h
      obtain ⟨rfl, rfl⟩ := Prod.mk.inj he
      obtain ⟨rfl, hhead⟩ := ih hdivide
      exact ⟨rfl, List.not_mem_cons_of_ne_of_not_mem (Ne.symm hc) hhead⟩

/-- A list without the separator is not divided. -/
theorem divide_eq_none_iff : divide separator chars = none ↔ separator ∉ chars := by
  induction chars with
  | nil => simp [divide]
  | cons c rest ih =>
    rw [divide, List.mem_cons, not_or, ← ih]
    split
    · next hc => simp [hc]
    · next hc => simp [Ne.symm hc]

/-- The characters in front of the last separator and those behind it. -/
def divideLast (separator : Char) (chars : List Char) : Option (List Char × List Char) :=
  (divide separator chars.reverse).map fun (back, front) => (front.reverse, back.reverse)

/-- A list is divided at its last separator. -/
theorem divideLast_eq_some_iff :
    divideLast separator chars = some (front, back) ↔
      chars = front ++ separator :: back ∧ separator ∉ back := by
  rw [divideLast, Option.map_eq_some_iff]
  constructor
  · rintro ⟨⟨tail, head⟩, hdivide, he⟩
    obtain ⟨rfl, rfl⟩ := Prod.mk.inj he
    obtain ⟨hchars, htail⟩ := divide_eq_some_iff.mp hdivide
    refine ⟨?_, by rwa [List.mem_reverse]⟩
    rw [← List.reverse_reverse chars, hchars]
    simp
  · rintro ⟨rfl, hback⟩
    refine ⟨(back.reverse, front.reverse), ?_, by simp⟩
    rw [divide_eq_some_iff]
    exact ⟨by simp, by rwa [List.mem_reverse]⟩

/-- The characters in front of the first occurrence of others. -/
def inFront? (needle : List Char) : List Char → Option (List Char)
  | [] => if needle.isEmpty then some [] else none
  | c :: rest =>
    if needle.isPrefixOf (c :: rest) then some [] else (inFront? needle rest).map (c :: ·)

/-- What does not hold the first character of others is all in front of them. -/
theorem inFront?_append {first : Char} {needle : List Char} (h : first ∉ front) :
    inFront? (first :: needle) (front ++ (first :: needle ++ back)) = some front := by
  induction front with
  | nil => simp [inFront?, List.isPrefixOf_iff_prefix]
  | cons c front ih =>
    rw [List.mem_cons, not_or] at h
    obtain ⟨hc, hfront⟩ := h
    have hno :
        (first :: needle).isPrefixOf (c :: (front ++ (first :: needle ++ back))) = false := by
      simp [List.isPrefixOf, hc]
    rw [List.cons_append, inFront?, hno, if_neg Bool.false_ne_true, ih hfront, Option.map_some]

/-- Lines that hold no line feed are the pieces between the line feeds behind them. -/
theorem splitOn_lines {lines : List (List Char)} (h : ∀ line ∈ lines, '\n' ∉ line) :
    (lines.flatMap (· ++ ['\n'])).splitOn '\n' = lines ++ [[]] := by
  induction lines with
  | nil => rfl
  | cons line lines ih =>
    have hline := h line List.mem_cons_self
    have hlines := ih fun other ho => h other (List.mem_cons_of_mem line ho)
    rw [List.flatMap_cons, List.append_assoc, List.singleton_append,
      List.splitOn_append_cons_self_of_not_mem hline, hlines, List.cons_append]

end Text

namespace Descriptor

open Text

/-! ### Lines -/

/-- The key of a line: what stands in front of the first equals sign with a blank on each side. -/
def key? (line : String) : Option String :=
  (inFront? " = ".toList line.toList).map String.ofList

/-- The text stays on one line. -/
def OneLine (text : String) : Prop :=
  '\n' ∉ text.toList

instance (text : String) : Decidable (OneLine text) :=
  inferInstanceAs (Decidable ('\n' ∉ text.toList))

variable {architecture : Architecture} {provenance found : Provenance}

/-- The lines of a descriptor. -/
def lines (architecture : Architecture) (provenance : Provenance) : List String :=
  (settings architecture provenance).map fun (key, value) => key ++ " = " ++ value

/-- A line with a key is read as that key if there is no blank in it. -/
theorem key?_of_notMem {key value : String} (h : ' ' ∉ key.toList) :
    key? (key ++ " = " ++ value) = some key := by
  have hfront : inFront? (' ' :: "= ".toList)
      (key.toList ++ (' ' :: "= ".toList ++ value.toList)) = some key.toList :=
    inFront?_append h
  have hline : (key ++ " = " ++ value).toList =
      key.toList ++ (' ' :: "= ".toList ++ value.toList) := by
    simp
  have hneedle : " = ".toList = ' ' :: "= ".toList := rfl
  rw [key?, hline, hneedle, hfront, Option.map_some, String.ofList_toList]

/-- The keys are words. -/
theorem notMem_key {key value : String} (h : (key, value) ∈ settings architecture provenance) :
    ' ' ∉ key.toList ∧ '\n' ∉ key.toList := by
  have hkeys : ∀ setting ∈ settings architecture provenance,
      ' ' ∉ setting.1.toList ∧ '\n' ∉ setting.1.toList := by
    simp only [settings, List.forall_mem_cons]
    decide
  exact hkeys _ h

/-- The keys of the descriptor and their order depend on nothing. -/
theorem map_key?_lines (architecture : Architecture) (provenance : Provenance) :
    (lines architecture provenance).map key? =
      ["revision", "log_device", "log_level", "wait_for_start", "walk_page_tables"].map some := by
  have hkeys : (lines architecture provenance).map key? =
      (settings architecture provenance).map (some ·.1) := by
    rw [lines, List.map_map]
    exact List.map_congr_left fun _ hs => key?_of_notMem (notMem_key hs).1
  rw [hkeys]
  rfl

/-- The descriptor is made of its lines, each with a line feed behind it. -/
theorem toList_render (architecture : Architecture) (provenance : Provenance) :
    (render architecture provenance).toList =
      ((lines architecture provenance).map String.toList).flatMap (· ++ ['\n']) := by
  simp [render, lines, settings, line]

/-- A descriptor is cut into its lines at the line feeds, if there are none in the values. -/
theorem split_render (h : ∀ setting ∈ settings architecture provenance, OneLine setting.2) :
    Text.split '\n' (render architecture provenance) = lines architecture provenance ++ [""] := by
  have hlines : ∀ line ∈ (lines architecture provenance).map String.toList, '\n' ∉ line := by
    simp only [lines, List.map_map, List.mem_map]
    rintro line ⟨⟨key, value⟩, hs, rfl⟩
    have hvalue : '\n' ∉ value.toList := h _ hs
    simp [(notMem_key hs).2, hvalue]
  rw [Text.split, toList_render, splitOn_lines hlines, List.map_append, List.map_map]
  simp

/-- No setting breaks its line if no text does. -/
theorem oneLine_settings (hdevice : OneLine architecture.logDevice)
    (h : ∀ text ∈ [provenance.revision, provenance.date, provenance.branch], OneLine text) :
    ∀ setting ∈ settings architecture provenance, OneLine setting.2 := by
  simp only [List.forall_mem_cons, OneLine] at h hdevice
  obtain ⟨hrevision, hdate, hbranch, -⟩ := h
  have htext : OneLine (revisionText provenance) := by
    cases hdirty : provenance.dirty <;>
      simp [OneLine, revisionText, hdirty, hrevision, hdate, hbranch]
  simp only [settings, List.forall_mem_cons]
  exact ⟨htext, hdevice, by decide, by decide, by decide, nofun⟩

/-! ### Recovering the provenance -/

/-- The mark of a tree that is dirty. -/
def mark (dirty : Bool) : List Char :=
  if dirty then "(dirty)".toList else []

/-- The revision and whether it is marked. -/
def readMarked? (chars : List Char) : Option (List Char × Bool) :=
  match divide '(' chars with
  | none => some (chars, false)
  | some (revision, behind) => if behind = "dirty)".toList then some (revision, true) else none

/-- A revision is read with its mark if it has no bracket of its own. -/
theorem readMarked?_eq_some_iff {chars revision : List Char} {dirty : Bool} :
    readMarked? chars = some (revision, dirty) ↔
      chars = revision ++ mark dirty ∧ '(' ∉ revision := by
  have hmarked : ∀ {revision : List Char}, '(' ∉ revision →
      divide '(' (revision ++ mark true) = some (revision, "dirty)".toList) := divide_append
  constructor
  · intro h
    rw [readMarked?] at h
    split at h
    · next hnone =>
      obtain ⟨rfl, rfl⟩ := Prod.mk.inj (Option.some.inj h)
      exact ⟨(List.append_nil _).symm, divide_eq_none_iff.mp hnone⟩
    · next front behind hsome =>
      split at h
      · next hbehind =>
        obtain ⟨rfl, rfl⟩ := Prod.mk.inj (Option.some.inj h)
        rw [hbehind] at hsome
        exact divide_eq_some_iff.mp hsome
      · contradiction
  · rintro ⟨rfl, hrevision⟩
    cases dirty with
    | false =>
      have hchars : revision ++ mark false = revision := List.append_nil revision
      rw [hchars, readMarked?, divide_eq_none_iff.mpr hrevision]
    | true =>
      rw [readMarked?, hmarked hrevision]
      exact if_pos rfl

/-- The lines behind that of the log device, with the line feed in front of them. -/
def switches : List Char :=
  "\nlog_level = trace\nwait_for_start = false\nwalk_page_tables = false\n".toList

/-- The log device and the provenance that a descriptor tells. -/
def read? (text : String) : Option (String × Provenance) := do
  let chars ← text.toList.dropPrefix? "revision = \"".toList
  let (marked, chars) ← divide ' ' chars
  let (revision, dirty) ← readMarked? marked
  let (date, chars) ← divide ',' chars
  let chars ← chars.dropPrefix? " branch '".toList
  let chars ← chars.dropSuffix? switches
  let (chars, device) ← divideLast '\n' chars
  let device ← device.dropPrefix? "log_device = ".toList
  let branch ← chars.dropSuffix? "'\"".toList
  return (String.ofList device,
    ⟨String.ofList revision, String.ofList branch, dirty, String.ofList date⟩)

/-- The characters of a descriptor with the given log device. -/
def layout (device : String) (provenance : Provenance) : List Char :=
  "revision = \"".toList ++ ((provenance.revision.toList ++ mark provenance.dirty) ++ ' ' ::
    (provenance.date.toList ++ ',' :: (" branch '".toList ++
      (((provenance.branch.toList ++ "'\"".toList) ++ '\n' ::
        ("log_device = ".toList ++ device.toList)) ++ switches))))

/-- The texts of the provenance can be told apart where they meet. -/
structure Plain (provenance : Provenance) : Prop where
  /-- The first blank is behind the revision. -/
  blank : ' ' ∉ provenance.revision.toList
  /-- So is the mark. -/
  bracket : '(' ∉ provenance.revision.toList
  /-- The next comma is behind the date. -/
  comma : ',' ∉ provenance.date.toList

/-- The descriptor of an architecture has the layout of its log device. -/
theorem toList_render_eq_layout (architecture : Architecture) (provenance : Provenance) :
    (render architecture provenance).toList = layout architecture.logDevice provenance := by
  have hmark : (if provenance.dirty then "(dirty)" else "").toList = mark provenance.dirty := by
    cases provenance.dirty <;> rfl
  unfold layout
  simp only [render, settings, line, String.join_cons, String.join_nil, revisionText, List.map_cons,
    List.map_nil, String.toList_append, hmark, List.append_assoc, List.cons_append]
  rfl

/-- A text tells a provenance exactly if it is the descriptor of it. -/
theorem read?_eq_some_iff {text device : String} :
    read? text = some (device, provenance) ↔
      text.toList = layout device provenance ∧ Plain provenance ∧ OneLine device := by
  simp only [read?, Option.bind_eq_bind, Option.bind_eq_some_iff, Option.pure_def, Prod.exists,
    dropPrefix?_eq_some_iff, dropSuffix?_eq_some_iff, divide_eq_some_iff, divideLast_eq_some_iff,
    readMarked?_eq_some_iff]
  constructor
  · rintro ⟨_, htext, _, _, ⟨rfl, hblank⟩, revision, dirty, ⟨rfl, hbracket⟩, date, _,
      ⟨rfl, hcomma⟩, _, rfl, _, rfl, _, _, ⟨rfl, hfeed⟩, device, rfl, branch, rfl, he⟩
    obtain ⟨rfl, rfl⟩ := Prod.mk.inj (Option.some.inj he)
    refine ⟨?layout, ⟨?blank, ?bracket, ?comma⟩, ?feed⟩
    case layout =>
      unfold layout
      simpa only [String.toList_ofList] using htext
    case blank => simpa using fun h => hblank (List.mem_append_left _ h)
    case bracket => simpa using hbracket
    case comma => simpa using hcomma
    case feed => simpa [OneLine] using fun h => hfeed (List.mem_append_right _ h)
  · rintro ⟨htext, plain, hdevice⟩
    refine ⟨_, htext, _, _, ⟨rfl, ?blank⟩, provenance.revision.toList, provenance.dirty,
      ⟨rfl, plain.bracket⟩, provenance.date.toList, _, ⟨rfl, plain.comma⟩, _, rfl, _, rfl, _, _,
      ⟨rfl, ?feed⟩, device.toList, rfl, provenance.branch.toList, rfl, ?told⟩
    case blank =>
      have hmark : ∀ dirty, ' ' ∉ mark dirty := by decide
      exact fun h => (List.mem_append.mp h).elim plain.blank (hmark provenance.dirty)
    case feed =>
      have hkey : '\n' ∉ "log_device = ".toList := by decide
      exact fun h => (List.mem_append.mp h).elim hkey hdevice
    case told => simp only [String.ofList_toList]

/-- The log device of a registered architecture is a word, and no other one has the same. -/
theorem oneLine_logDevice (registered : architecture ∈ Architecture.registered) :
    OneLine architecture.logDevice ∧
      ∀ other ∈ Architecture.registered, other.logDevice = architecture.logDevice →
        other = architecture := by
  have hall : ∀ architecture ∈ Architecture.registered, OneLine architecture.logDevice ∧
      ∀ other ∈ Architecture.registered, other.logDevice = architecture.logDevice →
        other = architecture := by
    decide
  exact hall architecture registered

/-- What a descriptor tells of the architecture and the provenance that it was made from. -/
structure RenderAccount (architecture : Architecture) (provenance : Provenance) : Prop where
  /-- There are five lines, each of them with its line feed, and these are their keys. -/
  lines : (∀ text ∈ [provenance.revision, provenance.date, provenance.branch], OneLine text) →
    ∃ lines, Text.split '\n' (render architecture provenance) = lines ++ [""] ∧
      lines.map key? =
        ["revision", "log_device", "log_level", "wait_for_start", "walk_page_tables"].map some
  /-- The log device and the whole provenance are recovered, whatever the branch is called. -/
  recovered : Plain provenance →
    read? (render architecture provenance) = some (architecture.logDevice, provenance)
  /-- They are recovered from no other text. -/
  unique : ∀ text, read? text = some (architecture.logDevice, provenance) →
    text = render architecture provenance
  /-- No two descriptors look alike. -/
  injective : Plain provenance → ∀ other ∈ Architecture.registered, ∀ found, Plain found →
    render other found = render architecture provenance →
      other = architecture ∧ found = provenance

/-- A descriptor is well formed, and nothing that is put into it is lost. -/
theorem render_account {architecture : Architecture}
    (registered : architecture ∈ Architecture.registered) (provenance : Provenance) :
    RenderAccount architecture provenance := by
  have hrecovered : ∀ {other found}, other ∈ Architecture.registered → Plain found →
      read? (render other found) = some (other.logDevice, found) := by
    intro other found hother plain
    exact read?_eq_some_iff.mpr
      ⟨toList_render_eq_layout other found, plain, (oneLine_logDevice hother).1⟩
  obtain ⟨hdevice, hunique⟩ := oneLine_logDevice registered
  refine ⟨fun hlines => ?lines, hrecovered registered, fun text hread => ?unique, ?injective⟩
  case lines =>
    exact ⟨_, split_render (oneLine_settings hdevice hlines), map_key?_lines _ _⟩
  case unique =>
    rw [← String.toList_inj, toList_render_eq_layout]
    exact (read?_eq_some_iff.mp hread).1
  case injective =>
    intro plain other hother found hfound he
    have hsame := hrecovered hother hfound
    rw [he, hrecovered registered plain] at hsame
    obtain ⟨hlog, rfl⟩ := Prod.mk.inj (Option.some.inj hsame)
    exact ⟨hunique other hother hlog.symm, rfl⟩

/-- A provenance with a branch that reads like the end of another descriptor. -/
def oddProvenance : Provenance where
  revision := "3f2a9c1"
  branch := "main'\"\nlog_device = com2\n(dirty) x, branch 'y"
  dirty := true
  date := "2024-05-01@12:30:45"

/-- It is recovered all the same. -/
theorem render_account_odd :
    Architecture.aarch64 ∈ Architecture.registered ∧
      RenderAccount .aarch64 oddProvenance ∧
      read? (render .aarch64 oddProvenance) = some ("\"pl011@9000000\"", oddProvenance) := by
  have registered : Architecture.aarch64 ∈ Architecture.registered := by decide
  have account := render_account registered oddProvenance
  exact ⟨registered, account, account.recovered ⟨by decide, by decide, by decide⟩⟩

end Descriptor

end Bootstage
