import ShaderFront.Command.World
import Mathlib.Data.List.Basic

/-!
# Writing a file

A file that is written is at one place afterwards, and its path leads there. Everything
else is as it was: a folder stays a folder because only the last name of a path can be
new, so the way to every other place is still there.
-/

namespace ShaderFront

/-- Does writing at a path leave alone what is read at another one? -/
def World.Spares {σ : Type} (w : World σ) (files : σ) (path other : Bytes) : Prop :=
  ∀ text, w.read (w.write files path text).1 other = w.read files other

namespace Folder

variable {f : Folder} {l m : Location}

theorem isFolder_iff : f.isFolder l = true ↔
    l <+: f.here ∨ (∃ m ∈ f.folders, l <+: m) ∨ ∃ e ∈ f.files, l <+: e.1 ∧ l ≠ e.1 := by
  simp [isFolder, or_assoc]

/-- What lies on the way to a folder is a folder. -/
theorem isFolder_of_isPrefix (h : f.isFolder m = true) (hl : l <+: m) : f.isFolder l = true := by
  rw [isFolder_iff] at h ⊢
  rcases h with h | ⟨d, hd, h⟩ | ⟨e, he, h, hne⟩
  · exact .inl (hl.trans h)
  · exact .inr (.inl ⟨d, hd, hl.trans h⟩)
  · refine .inr (.inr ⟨e, he, hl.trans h, fun heq => hne ?_⟩)
    have hlength : m.length ≤ l.length := heq ▸ h.length_le
    exact hl.eq_of_length_le hlength ▸ heq

theorem isFolder_of_entry (h : f.entry l = .folder) : f.isFolder l = true := by
  unfold entry at h
  split at h
  · cases h
  · split at h
    · assumption
    · cases h

/-! ## Putting a file in place -/

theorem lookup_cons (e : Location × Bytes) (files : List (Location × Bytes)) :
    (e :: files).lookup m = if m = e.1 then some e.2 else files.lookup m := by
  rcases e with ⟨k, content⟩
  rw [List.lookup_cons]
  by_cases h : m = k
  · simp [h]
  · have hne : (m == k) = false := by simp [h]
    rw [hne, if_neg h]

/-- The files of a list with a new content for one of them. -/
def replaced (files : List (Location × Bytes)) (l : Location) (content : Bytes) :
    List (Location × Bytes) :=
  files.map fun e => if e.1 = l then (l, content) else e

theorem replaced_cons (e : Location × Bytes) (files : List (Location × Bytes)) (content : Bytes) :
    replaced (e :: files) l content =
      (if e.1 = l then (l, content) else e) :: replaced files l content :=
  rfl

theorem lookup_replaced_self {files : List (Location × Bytes)} (content : Bytes)
    (h : (files.lookup l).isSome) : (replaced files l content).lookup l = some content := by
  induction files with
  | nil => cases h
  | cons e rest ih =>
    rw [replaced_cons, lookup_cons]
    by_cases he : e.1 = l
    · simp [he]
    · rw [lookup_cons, if_neg (Ne.symm he)] at h
      simp [he, Ne.symm he, ih h]

theorem lookup_replaced_of_ne {files : List (Location × Bytes)} (content : Bytes) (h : m ≠ l) :
    (replaced files l content).lookup m = files.lookup m := by
  induction files with
  | nil => rfl
  | cons e rest ih =>
    rw [replaced_cons, lookup_cons, lookup_cons, ih]
    by_cases he : e.1 = l
    · simp [he, h]
    · simp [he]

theorem lookup_put (content : Bytes) :
    (f.put l content).files.lookup m = if m = l then some content else f.files.lookup m := by
  unfold put
  by_cases h : (f.files.lookup l).isSome
  · rw [if_pos h]
    by_cases hm : m = l
    · rw [hm, if_pos rfl]
      exact lookup_replaced_self content h
    · rw [if_neg hm]
      exact lookup_replaced_of_ne content hm
  · rw [if_neg h, List.lookup_append, lookup_cons]
    by_cases hm : m = l
    · rw [Option.not_isSome_iff_eq_none] at h
      simp [hm, h]
    · simp [hm]

/-- Is everything on the way to a place a folder? -/
def HasWayTo (f : Folder) (l : Location) : Prop :=
  ∀ m, m <+: l → m ≠ l → f.isFolder m = true

theorem exists_mem_replaced {files : List (Location × Bytes)} {content : Bytes}
    {p : Location → Prop} :
    (∃ e ∈ replaced files l content, p e.1) ↔ ∃ e ∈ files, p e.1 := by
  induction files with
  | nil => rfl
  | cons e rest ih =>
    rw [replaced_cons, List.exists_mem_cons_iff, List.exists_mem_cons_iff, ih]
    by_cases he : e.1 = l
    · simp [he]
    · simp [he]

theorem isFolder_put (content : Bytes) (h : f.HasWayTo l) :
    (f.put l content).isFolder m = f.isFolder m := by
  rw [Bool.eq_iff_iff]
  by_cases hsome : (f.files.lookup l).isSome
  · rw [put, if_pos hsome, isFolder_iff, isFolder_iff]
    exact or_congr_right (or_congr_right (exists_mem_replaced (p := fun k => m <+: k ∧ m ≠ k)))
  · rw [put, if_neg hsome]
    constructor
    · intro hm
      rcases isFolder_iff.mp hm with hm | hm | ⟨e, he, hm, hne⟩
      · exact isFolder_iff.mpr (.inl hm)
      · exact isFolder_iff.mpr (.inr (.inl hm))
      · rcases List.mem_append.mp he with he | he
        · exact isFolder_iff.mpr (.inr (.inr ⟨e, he, hm, hne⟩))
        · cases List.mem_singleton.mp he
          exact h m hm hne
    · intro hm
      rcases isFolder_iff.mp hm with hm | hm | ⟨e, he, hm⟩
      · exact isFolder_iff.mpr (.inl hm)
      · exact isFolder_iff.mpr (.inr (.inl hm))
      · exact isFolder_iff.mpr (.inr (.inr ⟨e, List.mem_append_left _ he, hm⟩))

/-- Putting a file in place changes what is there, and nothing else. -/
theorem entry_put (content : Bytes) (h : f.HasWayTo l) :
    (f.put l content).entry m = if m = l then .file content else f.entry m := by
  unfold entry
  rw [lookup_put, isFolder_put content h]
  by_cases hm : m = l
  · simp [hm]
  · simp [hm]

/-! ## Following a path -/

/-- One part of a path leads from a folder to itself, to a place on the way to it or to a
place in it. -/
theorem descend_eq_ok {part : Bytes} (h : f.descend l part = .ok m) :
    f.entry l = .folder ∧ (m <+: l ∨ m = l ++ [part]) := by
  unfold descend at h
  split at h
  · cases h
  · cases h
  · refine ⟨by assumption, ?_⟩
    split_ifs at h <;> cases h
    · exact .inl (List.prefix_refl l)
    · exact .inl (List.dropLast_prefix l)
    · exact .inr rfl

theorem descend_nil (h : f.entry l = .folder) : f.descend l [] = .ok l := by
  rw [descend, h]
  rfl

/-- Everything on the way to a part of a folder is a folder. -/
theorem hasWayTo_of_descend {part : Bytes} (h : f.descend l part = .ok m) : f.HasWayTo m := by
  obtain ⟨hentry, hm⟩ := descend_eq_ok h
  intro k hk hne
  have hkl : k <+: l := by
    rcases hm with hm | rfl
    · exact hk.trans hm
    · exact (List.prefix_concat_iff.mp hk).resolve_left hne
  exact isFolder_of_isPrefix (isFolder_of_entry hentry) hkl

/-- A path that can be followed is followed to the same place as long as the folders on
its way are there. -/
theorem foldlM_descend_of_folders {g : Folder} (hg : ∀ l, f.entry l = .folder → g.entry l = .folder)
    {parts : List Bytes} (h : parts.foldlM f.descend l = .ok m) :
    parts.foldlM g.descend l = .ok m := by
  induction parts generalizing l with
  | nil => exact h
  | cons part rest ih =>
    rw [List.foldlM_cons] at h ⊢
    cases hstep : f.descend l part with
    | error e =>
      rw [hstep] at h
      cases h
    | ok next =>
      have hfolder := (descend_eq_ok hstep).1
      have hsame : g.descend l part = .ok next := by
        rw [← hstep, descend, descend, hfolder, hg l hfolder]
      rw [hstep] at h
      rw [hsame]
      exact ih h

theorem exists_of_bind_eq_ok {α β : Type} {x : Except FileError α} {k : α → Except FileError β}
    {b : β} (h : x >>= k = .ok b) : ∃ a, x = .ok a ∧ k a = .ok b := by
  cases x with
  | error e => cases h
  | ok a => exact ⟨a, rfl, h⟩

/-- The place where a path would be written is the one that it leads to. There is a way
to it, and no folder at it. -/
theorem target_eq_ok {path : Bytes} (h : f.target path = .ok l) :
    checkPath path = .ok () ∧ f.resolve (pathParts path) = .ok l ∧ f.entry l ≠ .folder ∧
      f.HasWayTo l := by
  unfold target at h
  obtain ⟨_, hcheck, h⟩ := exists_of_bind_eq_ok h
  refine ⟨hcheck, ?_⟩
  generalize hparts : pathParts path = parts at h ⊢
  have htrimmed : (parts.reverse.dropWhile List.isEmpty).reverse <+: parts := by
    have hsuffix := List.dropWhile_suffix (l := parts.reverse) List.isEmpty
    simpa using List.reverse_prefix.mpr hsuffix
  dsimp only at h
  generalize (parts.reverse.dropWhile List.isEmpty).reverse = trimmed at h htrimmed
  cases hlast : trimmed.getLast? with
  | none =>
    rw [hlast] at h
    cases h
  | some last =>
    rw [hlast] at h
    obtain ⟨around, haround, h⟩ := exists_of_bind_eq_ok h
    rw [List.foldlM_append] at haround
    obtain ⟨way, hway, haround⟩ := exists_of_bind_eq_ok haround
    obtain ⟨stop, hstop, haround⟩ := exists_of_bind_eq_ok haround
    cases haround
    have hsame : around = way := by
      rw [descend_nil (descend_eq_ok hstop).1] at hstop
      cases hstop
      rfl
    subst hsame
    split_ifs at h with hshort
    obtain ⟨place, hplace, h⟩ := exists_of_bind_eq_ok h
    split_ifs at h with hfolder
    cases h
    refine ⟨?_, hfolder, hasWayTo_of_descend hplace⟩
    have hwhole : trimmed = parts := htrimmed.eq_of_length_le (Nat.le_of_not_lt hshort)
    have hsplit : trimmed.dropLast ++ [last] = parts := by
      rw [List.dropLast_append_getLast? last hlast, hwhole]
    have hresolve : f.resolve parts =
        (trimmed.dropLast ++ [last]).foldlM f.descend (f.origin parts) := by
      rw [hsplit, resolve]
    rw [hresolve, List.foldlM_append, hway, ← hplace]
    exact bind_pure (f.descend around last)

/-- What could be reached before a file is put in place can be reached then. -/
theorem resolve_put {path content : Bytes} {parts : List Bytes} (h : f.target path = .ok l)
    (hm : f.resolve parts = .ok m) : (f.put l content).resolve parts = .ok m := by
  obtain ⟨-, -, hfile, hput⟩ := target_eq_ok h
  have hfolders : ∀ k, f.entry k = .folder → (f.put l content).entry k = .folder := by
    intro k hk
    rw [entry_put content hput, if_neg, hk]
    rintro rfl
    exact hfile hk
  have horigin : (f.put l content).origin = f.origin := by
    unfold put
    split <;> rfl
  rw [resolve, horigin]
  exact foldlM_descend_of_folders hfolders hm

/-- The content of a file is read wherever its path leads to it. -/
theorem read_of_resolve {path : Bytes} (hcheck : checkPath path = .ok ())
    (h : f.resolve (pathParts path) = .ok l) :
    f.read path = match f.entry l with
      | .file content => .ok content
      | .folder => .error ⟨.reading, path, .isFolder⟩
      | .absent => .error ⟨.opening, path, .notFound⟩ := by
  cases hentry : f.entry l <;> simp only [read, hcheck, bind, Except.bind, h, hentry]

/-- A path that no file can have is refused whatever the files are. -/
theorem read_of_checkPath {path : Bytes} {e : FileError} (h : checkPath path = .error e) :
    f.read path = .error ⟨.opening, path, e⟩ := by
  rw [read, h]
  rfl

/-- Writing a file puts the content at the place that its path leads to then, and leaves
all else as it is. -/
theorem write_of_target {path : Bytes} (h : f.target path = .ok l) (content : Bytes) :
    ∃ after, f.write path content = .ok after ∧ after.read path = .ok content ∧
      ∀ k, after.entry k = if k = l then .file content else f.entry k := by
  obtain ⟨hcheck, hresolve, -, hput⟩ := target_eq_ok h
  have hentry (k : Location) := entry_put (m := k) content hput
  refine ⟨f.put l content, ?_, ?_, hentry⟩
  · rw [write, h]
  · rw [read_of_resolve hcheck (resolve_put h hresolve), hentry, if_pos rfl]

/-! ## Folders as worlds -/

variable (print : Bytes → Bytes × Option Bytes)

/-- What is written to a file that can be opened is there afterwards, and all else is as it
was. -/
theorem world_write {path : Bytes} (h : f.target path = .ok l) (text : Bytes) :
    ∃ after, (world print).write f path text = (after, none) ∧ after.read path = .ok text ∧
      ∀ k, after.entry k = if k = l then .file text else f.entry k := by
  obtain ⟨after, hwrite, hread, hentry⟩ := write_of_target h text
  refine ⟨after, ?_, hread, hentry⟩
  simp only [world, hwrite]

/-- Nothing changes if the file cannot be opened, and the reason tells the path. -/
theorem world_write_of_refused {path : Bytes} {e : FileError} (h : f.target path = .error e)
    (text : Bytes) :
    (world print).write f path text = (f, some (FileFailure.text ⟨.opening, path, e⟩)) := by
  simp only [world, write, h]

/-- What is written somewhere leaves alone every path that leads somewhere else. -/
theorem world_spares {path other : Bytes} (h : f.resolve (pathParts other) = .ok m)
    (hm : f.target path ≠ .ok m) : (world print).Spares f path other := by
  intro text
  cases htarget : f.target path with
  | error e => rw [world_write_of_refused print htarget]
  | ok place =>
    rw [htarget] at hm
    obtain ⟨-, -, -, hput⟩ := target_eq_ok htarget
    have hwrite : (world print).write f path text = (f.put place text, none) := by
      simp only [world, write, htarget]
    have hentry : (f.put place text).entry m = f.entry m := by
      rw [entry_put text hput, if_neg (fun he => hm (congrArg Except.ok he.symm))]
    rw [hwrite]
    change ((f.put place text).read other).mapError _ = (f.read other).mapError _
    congr 1
    cases hcheck : checkPath other with
    | error e => rw [read_of_checkPath hcheck, read_of_checkPath hcheck]
    | ok u => rw [read_of_resolve hcheck (resolve_put htarget h), read_of_resolve hcheck h, hentry]

end Folder

end ShaderFront
