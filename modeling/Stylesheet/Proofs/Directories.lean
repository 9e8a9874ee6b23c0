import Mathlib.Data.List.Basic
import Stylesheet.Directory

/-!
# Following paths through a directory that changes

Making folders and writing a file take nothing away that a path leads through:
folders stay, and a file is only written where there is no folder.  So a path
leads to the same place as before, and the path of a file that was just written
leads to that file.
-/

namespace Stylesheet

namespace Place

theorem child_ne_self (p : Place) (name : String) : p.child name ≠ p := by
  intro h
  have hlength := congrArg (·.elements.length) h
  simp [child] at hlength

theorem length_elements_parent_le (p : Place) :
    p.parent.elements.length ≤ p.elements.length := by
  unfold parent
  split
  · exact Nat.zero_le _
  · simp

theorem child_ne_parent (p : Place) (name : String) :
    p.child name ≠ p.parent := by
  intro h
  have hlength := congrArg (·.elements.length) h
  have hle := p.length_elements_parent_le
  simp only [child, List.length_append, List.length_singleton] at hlength
  omega

theorem child_inj {p : Place} {name other : String} :
    p.child name = p.child other ↔ name = other := by
  simp [child]

end Place

namespace Directory

/-! ## Files and folders after a change -/

section Changes

variable (d : Directory) (place other : Place) (bytes : List Char)

@[simp] theorem file?_put_self :
    (d.put place bytes).file? place = some bytes := by
  simp [put, file?]

theorem lookup_filter_ne
    {other place : Place} (h : other ≠ place)
    (files : List (Place × List Char)) :
    (files.filter (·.1 ≠ place)).lookup other = files.lookup other := by
  induction files with
  | nil => rfl
  | cons file files ih =>
      by_cases hfile : file.1 = place
      · have hother : (other == file.1) = false := beq_false_of_ne (hfile ▸ h)
        rw [List.filter_cons_of_neg (by simpa using hfile), List.lookup_cons,
          hother, ih]
      · rw [List.filter_cons_of_pos (by simpa using hfile), List.lookup_cons,
          List.lookup_cons, ih]

theorem file?_put_of_ne {other place : Place} (h : other ≠ place) :
    (d.put place bytes).file? other = d.file? other := by
  rw [put, file?, file?, List.lookup_cons, beq_false_of_ne h]
  exact lookup_filter_ne h d.files

@[simp] theorem file?_addFolder :
    (d.addFolder place).file? other = d.file? other := by
  unfold addFolder
  split <;> rfl

theorem isFolder_addFolder {other : Place} (h : d.isFolder other) :
    (d.addFolder place).isFolder other := by
  unfold addFolder
  split
  · exact h
  · simp only [isFolder, Bool.or_eq_true, List.contains_cons] at h ⊢
    tauto

end Changes

/-- The files are the same, and no folder is gone. -/
structure KeepsFiles (d after : Directory) : Prop where
  file?_eq : ∀ place, after.file? place = d.file? place
  isFolder : ∀ place, d.isFolder place → after.isFolder place

/-- The file at the place holds the bytes, the other files are the same, and no
folder is gone. -/
structure Rewrites (d after : Directory) (place : Place)
    (bytes : List Char) : Prop where
  file?_self : after.file? place = some bytes
  file?_other : ∀ other, other ≠ place → after.file? other = d.file? other
  isFolder : ∀ other, d.isFolder other → after.isFolder other

section Keeps

variable {d after last : Directory} {place : Place} {bytes : List Char}

theorem KeepsFiles.refl (d : Directory) : d.KeepsFiles d :=
  ⟨fun _ => rfl, fun _ h => h⟩

theorem KeepsFiles.trans (h : d.KeepsFiles after) (h' : after.KeepsFiles last) :
    d.KeepsFiles last :=
  ⟨fun place => (h'.file?_eq place).trans (h.file?_eq place),
    fun place hfolder => h'.isFolder place (h.isFolder place hfolder)⟩

theorem keepsFiles_addFolder (d : Directory) (place : Place) :
    d.KeepsFiles (d.addFolder place) :=
  ⟨file?_addFolder d place, fun _ h => isFolder_addFolder d place h⟩

theorem rewrites_put (h : d.KeepsFiles after) (place : Place)
    (bytes : List Char) :
    d.Rewrites (after.put place bytes) place bytes :=
  ⟨file?_put_self .., fun other hne =>
    (file?_put_of_ne after bytes hne).trans (h.file?_eq other),
    fun other hfolder => h.isFolder other hfolder⟩

/-- Making folders on a path either finds the next one or adds it. -/
theorem exists_of_makeFoldersFrom_cons
    {rooted : Bool} {done parts : List String} {part : String}
    (h : makeFoldersFrom rooted done (part :: parts) d = .ok after) :
    ∃ between, d.KeepsFiles between ∧
      makeFoldersFrom rooted (done ++ [part]) parts between = .ok after := by
  rw [makeFoldersFrom] at h
  split at h
  · cases h
  · split at h
    · cases h
    · next folder _ =>
        split at h
        · split at h
          · cases h
          · exact ⟨d, .refl d, h⟩
        · exact ⟨_, keepsFiles_addFolder d (folder.child part), h⟩
        · cases h

theorem keepsFiles_makeFoldersFrom
    {rooted : Bool} {done parts : List String}
    (h : makeFoldersFrom rooted done parts d = .ok after) :
    d.KeepsFiles after := by
  induction parts generalizing done d with
  | nil =>
      obtain rfl : d = after := Except.ok.inj h
      exact .refl d
  | cons part parts ih =>
      obtain ⟨between, hkeeps, hrest⟩ := exists_of_makeFoldersFrom_cons h
      exact hkeeps.trans (ih hrest)

theorem keepsFiles_makeFolders {folder : Path.Folder}
    (h : d.makeFolders folder = .ok after) :
    d.KeepsFiles after :=
  keepsFiles_makeFoldersFrom h

end Keeps

/-! ## Following a path -/

/-- The elements of paths that are no names. -/
def IsStep (part : String) : Prop :=
  part = "" ∨ part = "." ∨ part = ".."

/-- One element of a path leads from a place to another. -/
inductive Steps (d : Directory) (place : Place) : String → Place → Prop
  | stay {part : String} (hplace : d.file? place = none)
      (hpart : part = "" ∨ part = ".") :
      Steps d place part place
  | up (hplace : d.file? place = none) : Steps d place ".." place.parent
  | down {part : String} (hplace : d.file? place = none) (hpart : ¬ IsStep part)
      (hsize : part.utf8ByteSize ≤ Path.nameLimit)
      (hthere : (d.file? (place.child part)).isSome ∨
        d.isFolder (place.child part)) :
      Steps d place part (place.child part)

section Follow

variable {d after : Directory} {place target : Place} {part : String}
  {parts : List String}

theorem follow_cons_of_steps {next : Place} (h : d.Steps place part next) :
    d.follow place (part :: parts) = d.follow next parts := by
  cases h with
  | stay hplace hpart => simp [follow, hplace, hpart]
  | up hplace => simp [follow, hplace]
  | down hplace hpart hsize hthere =>
      rw [IsStep, not_or, not_or] at hpart
      simp [follow, hplace, hpart, Nat.not_lt.mpr hsize, hthere]

theorem follow_cons_eq_ok_iff :
    d.follow place (part :: parts) = .ok target ↔
      ∃ next, d.Steps place part next ∧ d.follow next parts = .ok target := by
  constructor
  · intro h
    rw [follow] at h
    split_ifs at h with hfile hstay hup hsize
    · exact ⟨place, .stay (by simpa using hfile) hstay, h⟩
    · exact ⟨place.parent, hup ▸ .up (by simpa using hfile), h⟩
    · by_cases hthere :
          ((d.file? (place.child part)).isSome
            || d.isFolder (place.child part)) = true
      · have hpart : ¬ IsStep part := by
          rintro (hempty | hdot | hdots)
          · exact hstay (.inl hempty)
          · exact hstay (.inr hdot)
          · exact hup hdots
        refine ⟨place.child part, ?_, by simpa [hthere] using h⟩
        exact .down (by simpa using hfile) hpart (Nat.not_lt.mp hsize)
          (by simpa using hthere)
      · simp [hthere] at h
  · rintro ⟨next, hstep, h⟩
    rwa [follow_cons_of_steps hstep]

theorem follow_append_eq_ok_iff {more : List String} :
    d.follow place (parts ++ more) = .ok target ↔
      ∃ between, d.follow place parts = .ok between ∧
        d.follow between more = .ok target := by
  induction parts generalizing place with
  | nil => simp [follow]
  | cons part parts ih =>
      rw [List.cons_append, follow_cons_eq_ok_iff]
      simp only [ih, follow_cons_eq_ok_iff]
      tauto

theorem follow_singleton_eq_ok_iff :
    d.follow place [part] = .ok target ↔ d.Steps place part target := by
  rw [follow_cons_eq_ok_iff]
  constructor
  · rintro ⟨next, hstep, h⟩
    exact Except.ok.inj h ▸ hstep
  · exact fun h => ⟨target, h, rfl⟩

theorem Steps.ne_child {next : Place} {name : String}
    (h : d.Steps place part next) (hname : part ≠ name) :
    next ≠ place.child name := by
  cases h with
  | stay _ _ => exact (place.child_ne_self name).symm
  | up _ => exact (place.child_ne_parent name).symm
  | down _ _ _ _ => exact fun heq => hname (Place.child_inj.mp heq)

/-- What is around a place are folders. -/
def Inside (d : Directory) (place : Place) : Prop :=
  ∀ count < place.elements.length,
    d.isFolder ⟨place.base, place.elements.take count⟩

theorem isFolder_of_elements_eq_nil (h : place.elements = []) :
    d.isFolder place := by
  simp [isFolder, h]

theorem Inside.child (h : d.Inside place) (hfolder : d.isFolder place)
    (name : String) :
    d.Inside (place.child name) := by
  intro count hcount
  have hle : count ≤ place.elements.length := by
    simpa [Place.child, Nat.lt_succ_iff] using hcount
  rw [Place.child, List.take_append_of_le_length hle]
  by_cases heq : count = place.elements.length
  · rw [heq, List.take_length]
    exact hfolder
  · exact h count (by omega)

theorem Inside.parent (h : d.Inside place) :
    d.Inside place.parent ∧ d.isFolder place.parent := by
  unfold Place.parent
  split
  · exact ⟨fun _ hcount => absurd hcount (Nat.not_lt_zero _),
      isFolder_of_elements_eq_nil rfl⟩
  · next hne =>
      have hpos := List.length_pos_of_ne_nil hne
      constructor
      · intro count hcount
        rw [List.length_dropLast] at hcount
        rw [List.dropLast_eq_take, List.take_take,
          Nat.min_eq_left (Nat.le_of_lt hcount)]
        exact h count (by omega)
      · rw [List.dropLast_eq_take]
        exact h _ (by omega)

/-- A place on the way of a path: folders are around it, and it is one itself if
it is no file. -/
def OnWay (d : Directory) (place : Place) : Prop :=
  d.Inside place ∧ (d.file? place = none → d.isFolder place)

theorem onWay_start (d : Directory) (rooted : Bool) : d.OnWay (.start rooted) :=
  ⟨fun _ h => absurd h (Nat.not_lt_zero _), fun _ =>
    isFolder_of_elements_eq_nil rfl⟩

theorem Steps.onWay {next : Place} (h : d.Steps place part next)
    (hplace : d.OnWay place) :
    d.OnWay next := by
  cases h with
  | stay _ _ => exact hplace
  | up _ => exact ⟨hplace.1.parent.1, fun _ => hplace.1.parent.2⟩
  | down hnone _ _ hthere =>
      refine ⟨hplace.1.child (hplace.2 hnone) part, fun hfile =>
        hthere.resolve_left ?_⟩
      simp [hfile]

/-- There is at least what there was, and no file where there was a folder. -/
structure Extends (d after : Directory) : Prop where
  isFolder : ∀ place, d.isFolder place → after.isFolder place
  isSome : ∀ place, (d.file? place).isSome → (after.file? place).isSome
  isNone : ∀ place, d.isFolder place → d.file? place = none →
    after.file? place = none

theorem KeepsFiles.extends (h : d.KeepsFiles after) : d.Extends after :=
  ⟨h.isFolder, fun place hsome => by rwa [h.file?_eq],
    fun place _ hnone => by rwa [h.file?_eq]⟩

theorem extends_put (h : d.isFolder place = false) (bytes : List Char) :
    d.Extends (d.put place bytes) := by
  refine ⟨fun _ hfolder => hfolder, ?_, ?_⟩
  · intro other hsome
    by_cases heq : other = place
    · rw [heq, file?_put_self]
      rfl
    · rwa [file?_put_of_ne d bytes heq]
  · intro other hfolder hnone
    have hne : other ≠ place := by
      rintro rfl
      rw [h] at hfolder
      cases hfolder
    rwa [file?_put_of_ne d bytes hne]

theorem Steps.of_extends
    {next : Place} (h : d.Steps place part next) (hplace : d.OnWay place)
    (hd : d.Extends after) :
    after.Steps place part next := by
  cases h with
  | stay hnone hpart => exact .stay (hd.isNone _ (hplace.2 hnone) hnone) hpart
  | up hnone => exact .up (hd.isNone _ (hplace.2 hnone) hnone)
  | down hnone hpart hsize hthere =>
      exact .down (hd.isNone _ (hplace.2 hnone) hnone) hpart hsize
        (hthere.imp (hd.isSome _) (hd.isFolder _))

/-- A path leads to the same place after a change that takes away nothing. -/
theorem Extends.follow_eq
    (h : d.Extends after) (hplace : d.OnWay place)
    (hfollow : d.follow place parts = .ok target) :
    after.follow place parts = .ok target := by
  induction parts generalizing place with
  | nil => exact hfollow
  | cons part parts ih =>
      obtain ⟨next, hstep, hrest⟩ := follow_cons_eq_ok_iff.mp hfollow
      apply follow_cons_eq_ok_iff.mpr
      exact ⟨next, hstep.of_extends hplace h, ih (hstep.onWay hplace) hrest⟩

theorem OnWay.follow (hplace : d.OnWay place)
    (hfollow : d.follow place parts = .ok target) :
    d.OnWay target := by
  induction parts generalizing place with
  | nil => exact Except.ok.inj hfollow ▸ hplace
  | cons part parts ih =>
      obtain ⟨next, hstep, hrest⟩ := follow_cons_eq_ok_iff.mp hfollow
      exact ih (hstep.onWay hplace) hrest

end Follow

/-! ## Reading and writing -/

/-- The path leads to the place. -/
def Leads (d : Directory) (path : String) (place : Place) : Prop :=
  d.follow (.start (Path.isRooted path)) (Path.parts path) = .ok place

/-- The path can be the name of a file. -/
def Passable (path : String) : Prop :=
  path ≠ "" ∧ path.utf8ByteSize ≤ Path.limit

section Files

variable {d after : Directory} {path : String} {place : Place}
  {bytes : List Char}

theorem Leads.of_extends (h : d.Leads path place) (hd : d.Extends after) :
    after.Leads path place :=
  hd.follow_eq (d.onWay_start _) h

theorem read_eq_ok_iff :
    d.read path = .ok bytes ↔
      Passable path ∧ ∃ place, d.Leads path place ∧
        d.file? place = some bytes := by
  unfold read Passable Leads
  split_ifs with hempty hsize
  · simp [hempty]
  · simp [Nat.not_le.mpr hsize]
  · have hpassable : path ≠ "" ∧ path.utf8ByteSize ≤ Path.limit :=
      ⟨hempty, Nat.not_lt.mp hsize⟩
    cases d.follow (.start (Path.isRooted path)) (Path.parts path) with
    | error fault => simp
    | ok place => cases hfile : d.file? place <;> simp [hpassable, hfile]

theorem KeepsFiles.read_eq (h : d.KeepsFiles after)
    (hread : d.read path = .ok bytes) :
    after.read path = .ok bytes := by
  obtain ⟨hpassable, place, hleads, hfile⟩ := read_eq_ok_iff.mp hread
  apply read_eq_ok_iff.mpr
  exact ⟨hpassable, place, hleads.of_extends h.extends,
    (h.file?_eq place).trans hfile⟩

/-- A place where a file can be written: its path ends in a name, and leads
through folders to a folder in which the name is not that of another folder. -/
structure Writable (d : Directory) (path : String) (front : List String)
    (name : String) (folder : Place) : Prop where
  passable : Passable path
  parts_eq : Path.parts path = front ++ [name]
  isName : ¬ IsStep name
  size_le : name.utf8ByteSize ≤ Path.nameLimit
  follow_eq : d.follow (.start (Path.isRooted path)) front = .ok folder
  file?_folder : d.file? folder = none
  not_isFolder : d.isFolder (folder.child name) = false

theorem eq_append_of_dropWhile
    {parts front : List String} {name : String}
    (hdrop : parts.reverse.dropWhile (· = "") = name :: front)
    (hend : parts.getLast? ≠ some "") :
    parts = front.reverse ++ [name] := by
  rw [← List.head?_reverse] at hend
  have hreverse : parts.reverse = name :: front := by
    cases hcases : parts.reverse with
    | nil => simp [hcases] at hdrop
    | cons last before =>
        have hlast : last ≠ "" := by simpa [hcases] using hend
        simpa [hcases, hlast] using hdrop
  rw [← List.reverse_cons, ← hreverse, List.reverse_reverse]

theorem exists_writable_of_target (h : d.target path = .ok place) :
    ∃ front name folder, d.Writable path front name folder ∧
      place = folder.child name := by
  unfold target at h
  split_ifs at h with hempty hsize
  dsimp only at h
  split at h
  · cases h
  · next name front hdrop =>
      split at h
      · cases h
      · next folder hfollow =>
          split_ifs at h with hfile hlast hlong hfolder
          rw [not_or, not_or] at hlast
          obtain ⟨hend, hdot, hdots⟩ := hlast
          have hparts := eq_append_of_dropWhile hdrop hend
          have hname : name ≠ "" := by
            rintro rfl
            exact hend (by simp [hparts])
          have hpassable : Passable path := ⟨hempty, Nat.not_lt.mp hsize⟩
          refine ⟨front.reverse, name, folder, ?_, (Except.ok.inj h).symm⟩
          exact ⟨hpassable, hparts,
            not_or.mpr ⟨hname, not_or.mpr ⟨hdot, hdots⟩⟩, Nat.not_lt.mp hlong,
            hfollow, by simpa using hfile, by simpa using hfolder⟩

/-- The path of a file that was written leads to it. -/
theorem Writable.leads_put
    {front : List String} {name : String} {folder : Place}
    (h : d.Writable path front name folder) (bytes : List Char) :
    (d.put (folder.child name) bytes).Leads path (folder.child name) := by
  have hextends := extends_put h.not_isFolder bytes
  have hway := (d.onWay_start (Path.isRooted path)).follow h.follow_eq
  rw [Leads, h.parts_eq, follow_append_eq_ok_iff]
  refine ⟨folder, hextends.follow_eq (d.onWay_start _) h.follow_eq, ?_⟩
  apply follow_singleton_eq_ok_iff.mpr
  apply Steps.down
  · exact hextends.isNone folder (hway.2 h.file?_folder) h.file?_folder
  · exact h.isName
  · exact h.size_le
  · exact .inl (by rw [file?_put_self]; rfl)

theorem Writable.place_eq
    {front : List String} {name : String} {folder : Place}
    (h : d.Writable path front name folder) (hleads : d.Leads path place) :
    place = folder.child name := by
  rw [Leads, h.parts_eq, follow_append_eq_ok_iff] at hleads
  obtain ⟨between, hbetween, hlast⟩ := hleads
  obtain rfl : folder = between :=
    Except.ok.inj (h.follow_eq.symm.trans hbetween)
  cases follow_singleton_eq_ok_iff.mp hlast with
  | stay _ hpart => exact absurd (hpart.imp_right .inl) h.isName
  | up _ => exact absurd (.inr (.inr rfl)) h.isName
  | down _ _ _ _ => rfl

theorem write_eq_ok (h : d.write path bytes = .ok after) :
    ∃ front name folder, d.Writable path front name folder ∧
      after = d.put (folder.child name) bytes := by
  unfold write at h
  split at h
  · cases h
  · next place htarget =>
      obtain ⟨front, name, folder, hwritable, rfl⟩ :=
        exists_writable_of_target htarget
      exact ⟨front, name, folder, hwritable, (Except.ok.inj h).symm⟩

theorem read_of_write (h : d.write path bytes = .ok after) :
    after.read path = .ok bytes := by
  obtain ⟨front, name, folder, hwritable, rfl⟩ := write_eq_ok h
  exact read_eq_ok_iff.mpr
    ⟨hwritable.passable, folder.child name, hwritable.leads_put bytes,
      file?_put_self ..⟩

/-- A file is the same after another name in its folder is written to. -/
theorem Writable.read_put_of_ne
    {out name other : String} {front : List String} {folder : Place}
    (h : d.Writable out front name folder)
    (hparts : Path.parts path = front ++ [other])
    (hrooted : Path.isRooted path = Path.isRooted out) (hname : other ≠ name)
    (hread : d.read path = .ok bytes) (written : List Char) :
    (d.put (folder.child name) written).read path = .ok bytes := by
  obtain ⟨hpassable, place, hleads, hfile⟩ := read_eq_ok_iff.mp hread
  have hne : place ≠ folder.child name := by
    rw [Leads, hparts, hrooted, follow_append_eq_ok_iff] at hleads
    obtain ⟨between, hbetween, hlast⟩ := hleads
    obtain rfl : folder = between :=
      Except.ok.inj (h.follow_eq.symm.trans hbetween)
    exact (follow_singleton_eq_ok_iff.mp hlast).ne_child hname
  apply read_eq_ok_iff.mpr
  refine ⟨hpassable, place,
    hleads.of_extends (extends_put h.not_isFolder written), ?_⟩
  exact (file?_put_of_ne d written hne).trans hfile

end Files

end Directory
end Stylesheet
