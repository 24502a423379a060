import Woodpecker.Library.Runs
import Woodpecker.Posix.Records

/-! The table of records as a directory, over sequences of calls on names.

Removing a name frees the record with all its other names. Renaming writes over the first slot
with the old name only, and leaves the record that had the new name before.
-/

namespace Woodpecker.Posix.Directory

open Library FileSystem DiskConFile List
open Function (update update_idem update_of_ne update_self)

inductive Call where
  | create (host : Host) (pathname : String) (O_EXCL : Bool)
    (O_ACCMODE : FileSystem.AccessMode) (mode : UInt32)
  | close (fd : Int)
  | link (host : Host) (oldpath newpath : String)
  | rename (host : Host) (oldpath newpath : String)
  | unlink (host : Host) (pathname : String)

/-- A file is created by `open` with `O_CREAT`. -/
def serve (fs : FileSystem) : Call → FileSystem × Int
  | .create host pathname O_EXCL O_ACCMODE mode =>
    fs.fd_open host pathname ⟨true, O_EXCL, O_ACCMODE⟩ mode
  | .close fd => fs.close fd
  | .link host oldpath newpath => fs.link host oldpath newpath
  | .rename host oldpath newpath => fs.rename host oldpath newpath
  | .unlink host pathname => fs.unlink host pathname

section

variable (name : String → String)

/-- There is no such file on disk, and the path stands for its absolute name. -/
structure Absent (host : Host) (path : String) : Prop where
  realpath : host.realpath path = some (name path)
  get_realpath : host.realpath (host.get_realpath path) = some (name path)
  sys_access : host.sys_access (host.get_realpath path) = false
  sys_open : host.sys_open (name path) < 0

def Allowed : Call → Prop
  | .create host pathname _ _ _ => Absent name host pathname
  | .close _ => True
  | .link host oldpath newpath => Absent name host oldpath ∧ Absent name host newpath
  | .rename host oldpath newpath => Absent name host oldpath ∧ Absent name host newpath
  | .unlink host pathname => Absent name host pathname

/-- A call that succeeds. -/
inductive Step : FileSystem → Call → FileSystem → Prop
  | serve (fs : FileSystem) (call : Call) (allowed : Allowed name call)
    (success : 0 ≤ (serve fs call).2)
    : Step fs call (serve fs call).1

/-- The file that a name denotes. -/
def lookup (fs : FileSystem) (filename : String) : Option Nat :=
  (fs.find_con_file filename).1

/-- The record at a place is in use and has the name. -/
def Names (fs : FileSystem) (filename : String) (i : Nat) : Prop :=
  ∃ con_file, fs.con_files[i]? = some con_file ∧ con_file.Holds filename

/-- Each name is held by at most one record. -/
def Unique (fs : FileSystem) : Prop :=
  ∀ ⦃filename i j⦄, Names fs filename i → Names fs filename j → i = j

/-- What a directory does. A new file is none that had a name before. -/
def Directs (before after : String → Option Nat) : Call → Prop
  | .create _ pathname _ _ _ => before (name pathname) = none
      ∧ ∃ i, (∀ filename, before filename ≠ some i)
        ∧ after = Function.update before (name pathname) (some i)
  | .close _ => after = before
  | .link _ oldpath newpath => before (name oldpath) ≠ none
      ∧ after = Function.update before (name newpath) (before (name oldpath))
      ∧ after (name oldpath) = before (name oldpath)
  | .rename _ oldpath newpath =>
    after = Function.update (Function.update before (name oldpath) none) (name newpath)
      (before (name oldpath))
  | .unlink _ pathname => after = Function.update before (name pathname) none

def Sound (transition : Transition FileSystem Call) : Prop :=
  Directs name (lookup transition.before) (lookup transition.after) transition.label
  ∧ Unique transition.after

/-- The file whose name is removed has no other name. -/
def OnlyName (fs : FileSystem) (filename : String) : Prop :=
  ∀ other i, lookup fs filename = some i → lookup fs other = some i → other = filename

/-- The new name denotes no other file, and the old name is in one slot of its record. -/
def Renames (fs : FileSystem) (old new : String) : Prop :=
  ∀ i con_file, lookup fs old = some i → fs.con_files[i]? = some con_file
    → (lookup fs new = none ∨ lookup fs new = some i)
      ∧ con_file.name.count (some old) = 1

def CarefulCall (fs : FileSystem) : Call → Prop
  | .unlink _ pathname => OnlyName fs (name pathname)
  | .rename _ oldpath newpath =>
    name oldpath = name newpath ∨ Renames fs (name oldpath) (name newpath)
  | _ => True

def Careful (transition : Transition FileSystem Call) : Prop :=
  CarefulCall name transition.before transition.label

end

-- Lookups

variable {fs fs' : FileSystem} {name : String → String} {host : Host} {filename : String}
  {i : Nat}

theorem names_of_lookup (found : lookup fs filename = some i) : Names fs filename i :=
  find_con_file_found found

theorem lookup_eq_none_iff : lookup fs filename = none ↔ ∀ i, ¬ Names fs filename i := by
  constructor
  · rintro missing i ⟨con_file, there, holds⟩
    rw [lookup, find_con_file_fst, findIdx?_eq_none_iff] at missing
    exact of_decide_eq_false (missing con_file (mem_of_getElem? there)) holds
  · intro unheld
    by_contra found
    obtain ⟨i, found⟩ := Option.ne_none_iff_exists'.mp found
    exact unheld i (names_of_lookup found)

/-- The first record with a name is the only one. -/
theorem Unique.lookup_eq_some_iff (unique : Unique fs)
    : lookup fs filename = some i ↔ Names fs filename i := by
  refine ⟨names_of_lookup, ?_⟩
  intro named
  cases found : lookup fs filename with
  | none => exact absurd named (lookup_eq_none_iff.mp found i)
  | some j => rw [unique (names_of_lookup found) named]

/-- Names are unique and denote what a function says exactly if they are held as it says. -/
theorem unique_and_lookup_eq_iff {denotes : String → Option Nat}
    : lookup fs = denotes ∧ Unique fs
      ↔ ∀ filename i, Names fs filename i ↔ denotes filename = some i := by
  constructor
  · rintro ⟨rfl, unique⟩ filename i
    exact unique.lookup_eq_some_iff.symm
  · intro named
    have unique : Unique fs := by
      intro filename i j first second
      rw [named] at first second
      exact Option.mem_unique first second
    refine ⟨?_, unique⟩
    funext filename
    apply Option.ext
    intro i
    rw [unique.lookup_eq_some_iff, named]

theorem names_congr (same : fs.SameUsed fs') (filename : String) (i : Nat)
    : Names fs' filename i ↔ Names fs filename i := by
  constructor
  · rintro ⟨con_file, there, holds⟩
    exact ⟨con_file, (same i holds.1).mp there, holds⟩
  · rintro ⟨con_file, there, holds⟩
    exact ⟨con_file, (same i holds.1).mpr there, holds⟩

variable {con_file : DiskConFile}

/-- Who holds a name after one record is set. -/
theorem names_setRecord {new : DiskConFile} (there : fs.con_files[i]? = some con_file)
    (filename : String) (j : Nat)
    : Names (fs.setRecord i new) filename j
      ↔ if j = i then new.Holds filename else Names fs filename j := by
  have inside : i < fs.con_files.length := (List.getElem?_eq_some_iff.mp there).1
  unfold Names
  simp only [setRecord, getElem?_set, inside, if_true]
  by_cases same : i = j
  · subst same
    simp
  · simp [same, Ne.symm same]

theorem names_of_getElem? (there : fs.con_files[i]? = some con_file)
    : Names fs filename i ↔ con_file.Holds filename := by
  simp [Names, there]

-- Calls that succeed

variable {path : String}

theorem holds_names (used : con_file.state ≠ .FREE) (named : con_file.name = names path)
    : con_file.Holds filename ↔ filename = path := by
  simp [Holds, used, named, names, mem_replicate]

variable {pathname : String}

theorem create_names {O_EXCL : Bool} {O_ACCMODE : AccessMode} {mode : UInt32}
    (absent : Absent name host pathname) (nonempty : 0 < fs.con_files.length)
    (success : 0 ≤ (fs.fd_open host pathname ⟨true, O_EXCL, O_ACCMODE⟩ mode).2)
    : let after := (fs.fd_open host pathname ⟨true, O_EXCL, O_ACCMODE⟩ mode).1
      lookup fs (name pathname) = none
      ∧ 0 < after.con_files.length
      ∧ ∃ i, (∀ filename, ¬ Names fs filename i)
        ∧ ∀ filename j, Names after filename j
            ↔ if j = i then filename = name pathname else Names fs filename j := by
  unfold fd_open at success ⊢
  rcases unused : fs.unusedFd with _ | fd
  · simp [unused] at success
  have sameNames (filename : String) (j : Nat)
      : Names (fs.setFd fd .zero) filename j ↔ Names fs filename j := Iff.rfl
  have sameLookup : lookup (fs.setFd fd .zero) (name pathname) = lookup fs (name pathname) :=
    rfl
  have nonempty : 0 < (fs.setFd fd .zero).con_files.length := nonempty
  simp only [unused, absent.realpath] at success ⊢
  simp only [← sameNames, ← sameLookup]
  generalize fs.setFd fd .zero = clear at nonempty success ⊢
  split at success
  · simp at success
  next proper =>
    rw [if_neg proper]
    obtain ⟨con_file, there, free⟩ := clear.newRecord_free host (name pathname) nonempty
    split at success
    · simp at success
    next free_file search =>
      simp only [search] at there ⊢
      simp only [there] at success ⊢
      have opened := ((clear.newRecord host free_file).1.openRecord_spec host pathname
        (name pathname) ⟨true, O_EXCL, O_ACCMODE⟩ mode con_file).2
      split at success
      next isOpened =>
        rw [if_pos isOpened]
        obtain ⟨used, named⟩ := opened isOpened
        refine ⟨by rw [lookup, search], ?_, (clear.newRecord host free_file).2, ?_, ?_⟩
        · simpa [bindFd, setFd, setRecord] using
            nonempty.trans_le (clear.newRecord_length host free_file)
        · intro filename
          rw [← names_congr (clear.newRecord_used host free_file), names_of_getElem? there]
          exact fun holds => holds.1 free
        · intro filename j
          refine (names_setRecord there filename j).trans ?_
          rw [names_congr (clear.newRecord_used host free_file)]
          split
          · exact holds_names used named
          · rfl
      · simp at success

theorem close_names (fs : FileSystem) (number : Int) (filename : String) (j : Nat)
    : Names (fs.close number).1 filename j ↔ Names fs filename j := by
  unfold close
  split
  · rfl
  split
  · rfl
  · simp [Names, addRef_con_files, addRefs, Holds, setFd]

theorem access_eq (absent : Absent name host path)
    : fs.access host path = (lookup fs (name path)).isSome := by
  simp [access, absent.get_realpath, absent.sys_access, lookup]

variable {newpath : String} {slots : List (Option String)}

/-- The slots after a name is added, by induction on them. -/
theorem mem_addName {slots' : List (Option String)}
    (added : addName newpath slots = some slots')
    : some filename ∈ slots' ↔ some filename ∈ slots ∨ filename = newpath := by
  induction slots generalizing slots' with
  | nil => cases added
  | cons slot rest ih =>
    cases slot with
    | none =>
      cases added
      simp [or_comm]
    | some other =>
      obtain ⟨rest', isRest, rfl⟩ := Option.map_eq_some_iff.mp added
      simp [ih isRest, or_assoc]

theorem link_names {oldpath : String} (absentOld : Absent name host oldpath)
    (absentNew : Absent name host newpath) (success : 0 ≤ (fs.link host oldpath newpath).2)
    : let after := (fs.link host oldpath newpath).1
      lookup fs (name newpath) = none
      ∧ after.con_files.length = fs.con_files.length
      ∧ ∃ i, lookup fs (name oldpath) = some i
        ∧ ∀ filename j, Names after filename j
            ↔ Names fs filename j ∨ filename = name newpath ∧ j = i := by
  simp only [link, access_eq absentOld, access_eq absentNew, absentOld.realpath,
    absentNew.realpath] at success ⊢
  cases new : lookup fs (name newpath) with
  | some i => simp [new] at success
  | none =>
    rcases old : lookup fs (name oldpath) with _ | i
    · simp [new, old] at success
    obtain ⟨con_file, there, holds⟩ := names_of_lookup old
    have search : fs.find_con_file (name oldpath)
        = (some i, (fs.find_con_file (name oldpath)).2) := Prod.ext old rfl
    rw [search] at success ⊢
    simp only [new, old, there, Option.isSome_none, Option.isSome_some, Bool.not_true,
      Bool.false_eq_true, if_false] at success ⊢
    rcases added : addName (name newpath) con_file.name with _ | slots
    · simp [added] at success
    refine ⟨trivial, by simp [setRecord], i, rfl, ?_⟩
    intro filename j
    simp only [names_setRecord there]
    split
    next same =>
      subst same
      simp [names_of_getElem? there, Holds, holds.1, mem_addName added]
    next differ => simp [differ]

theorem unlink_names (absent : Absent name host pathname)
    (success : 0 ≤ (fs.unlink host pathname).2)
    : let after := (fs.unlink host pathname).1
      after.con_files.length = fs.con_files.length
      ∧ ∃ i, lookup fs (name pathname) = some i
        ∧ ∀ filename j, Names after filename j ↔ Names fs filename j ∧ j ≠ i := by
  simp only [unlink, freeNamed, absent.realpath] at success ⊢
  cases search : fs.find_con_file (name pathname) with
  | mk found free_file =>
    rcases found with _ | i
    · simp [search] at success
    have found : lookup fs (name pathname) = some i := by rw [lookup, search]
    obtain ⟨con_file, there, -⟩ := names_of_lookup found
    refine ⟨by simp [modifyRecord], i, found, ?_⟩
    intro filename j
    simp only [modifyRecord_eq there, names_setRecord there]
    split
    next same => simp [same, Holds, free_con_file]
    next differ => simp [differ]

variable {old new : String}

/-- The slots after a name is replaced, by induction on them. -/
theorem mem_replaceName (named : some old ∈ slots)
    : some filename ∈ replaceName old new slots
      ↔ filename = new ∨ some filename ∈ slots.erase (some old) := by
  induction slots with
  | nil => cases named
  | cons slot rest ih =>
    rw [replaceName]
    by_cases here : slot = some old
    · simp [here]
    have later : some old ∈ rest := by simpa [Ne.symm here] using named
    rw [if_neg here, erase_cons_tail (by simpa using here)]
    simp only [mem_cons, ih later]
    tauto

theorem rename_names {oldpath : String} (absentOld : Absent name host oldpath)
    (absentNew : Absent name host newpath) (success : 0 ≤ (fs.rename host oldpath newpath).2)
    : let after := (fs.rename host oldpath newpath).1
      after.con_files.length = fs.con_files.length
      ∧ ∃ i con_file, lookup fs (name oldpath) = some i ∧ fs.con_files[i]? = some con_file
        ∧ con_file.Holds (name oldpath)
        ∧ ∀ filename j, Names after filename j
            ↔ if j = i then filename = name newpath
                ∨ some filename ∈ con_file.name.erase (some (name oldpath))
              else Names fs filename j := by
  simp only [rename, absentOld.realpath, absentNew.realpath] at success ⊢
  cases search : fs.find_con_file (name oldpath) with
  | mk found free_file =>
    rcases found with _ | i
    · simp [search, absentOld.sys_open] at success
    have found : lookup fs (name oldpath) = some i := by rw [lookup, search]
    obtain ⟨con_file, there, holds⟩ := names_of_lookup found
    refine ⟨by simp [modifyRecord], i, con_file, found, there, holds, ?_⟩
    intro filename j
    simp only [modifyRecord_eq there, names_setRecord there]
    split
    · simp [Holds, holds.1, mem_replaceName holds.2]
    · rfl

-- One call

/-- What is kept between calls; the table is never empty. -/
structure Kept (fs : FileSystem) : Prop where
  unique : Unique fs
  nonempty : 0 < fs.con_files.length

/-- A record without names gets a name that no record has. -/
theorem create_sound (unique : Unique fs) (missing : lookup fs new = none)
    (unnamed : ∀ filename, ¬ Names fs filename i) (names : ∀ filename j, Names fs' filename j
      ↔ if j = i then filename = new else Names fs filename j)
    : lookup fs' = update (lookup fs) new (some i) ∧ Unique fs' := by
  rw [unique_and_lookup_eq_iff]
  intro filename j
  rw [names]
  have unheld := lookup_eq_none_iff.mp missing
  by_cases same : filename = new
  · subst same
    simp only [update_self, Option.some.injEq]
    split
    next here => simp [here]
    next away => exact iff_of_false (unheld j) (Ne.symm away)
  · rw [update_of_ne same, unique.lookup_eq_some_iff]
    split
    next here =>
      subst here
      exact iff_of_false same (unnamed filename)
    · rfl

/-- A record gets a name that no record has. -/
theorem link_sound (unique : Unique fs) (missing : lookup fs new = none)
    (names : ∀ filename j, Names fs' filename j ↔ Names fs filename j ∨ filename = new ∧ j = i)
    : lookup fs' = update (lookup fs) new (some i) ∧ Unique fs' := by
  rw [unique_and_lookup_eq_iff]
  intro filename j
  rw [names]
  have unheld := lookup_eq_none_iff.mp missing
  by_cases same : filename = new
  · subst same
    simp [unheld j, eq_comm]
  · simp [same, unique.lookup_eq_some_iff]

/-- All names of a record are removed with one of them. -/
theorem unlink_sound_iff (unique : Unique fs) (found : lookup fs old = some i)
    (names : ∀ filename j, Names fs' filename j ↔ Names fs filename j ∧ j ≠ i)
    : lookup fs' = update (lookup fs) old none ∧ Unique fs' ↔ OnlyName fs old := by
  rw [unique_and_lookup_eq_iff]
  simp only [names, ← unique.lookup_eq_some_iff]
  constructor
  · intro follows other place isPlace shared
    obtain rfl := Option.mem_unique found isPlace
    by_contra differ
    have kept := (follows other i).mpr (by rwa [update_of_ne differ])
    exact kept.2 rfl
  · intro only filename j
    by_cases same : filename = old
    · subst same
      rw [update_self, found]
      simp only [Option.some.injEq, reduceCtorEq, iff_false]
      exact fun kept => kept.2 kept.1.symm
    · rw [update_of_ne same]
      refine ⟨And.left, fun named => ⟨named, ?_⟩⟩
      rintro rfl
      exact same (only filename j found named)

/-- The first slot with the old name gets the new one. -/
theorem rename_sound_iff (unique : Unique fs) (found : lookup fs old = some i)
    (there : fs.con_files[i]? = some con_file) (holds : con_file.Holds old)
    (names : ∀ filename j, Names fs' filename j
      ↔ if j = i then filename = new ∨ some filename ∈ con_file.name.erase (some old)
        else Names fs filename j)
    : lookup fs' = update (update (lookup fs) old none) new (some i)
        ∧ Unique fs'
      ↔ old = new ∨ Renames fs old new := by
  have here (filename : String) : Names fs filename i ↔ some filename ∈ con_file.name := by
    rw [names_of_getElem? there]
    exact and_iff_right holds.1
  have erased : some old ∈ con_file.name.erase (some old)
      ↔ con_file.name.count (some old) ≠ 1 := by
    have positive := count_pos_iff.mpr holds.2
    rw [← count_pos_iff, count_erase_self]
    omega
  have kept {filename : String} (differ : filename ≠ old)
      : some filename ∈ con_file.name.erase (some old) ↔ Names fs filename i := by
    rw [here, mem_erase_of_ne (by simpa using differ)]
  rw [unique_and_lookup_eq_iff]
  simp only [names]
  constructor
  · intro follows
    by_cases same : old = new
    · exact .inl same
    right
    intro place record isPlace isRecord
    obtain rfl := Option.mem_unique found isPlace
    obtain rfl := Option.mem_unique there isRecord
    constructor
    · cases target : lookup fs new with
      | none => exact .inl rfl
      | some j =>
        have moved := follows new j
        rw [update_self, ← unique.lookup_eq_some_iff, target] at moved
        by_contra other
        have away : j ≠ i := by simpa using other
        exact away (Option.some.inj (moved.mp (by simp [away]))).symm
    · by_contra twice
      have gone := (follows old i).mp (by simp [erased.mpr twice])
      rw [update_of_ne same, update_self] at gone
      cases gone
  · intro careful filename j
    by_cases itself : old = new
    · -- the name is written over itself
      subst itself
      rw [update_idem]
      by_cases same : filename = old
      · subst same
        split
        next here => simp [here]
        next away =>
          refine iff_of_false (fun named => away ?_) (by simpa using Ne.symm away)
          exact (unique (names_of_lookup found) named).symm
      · rw [update_of_ne same, unique.lookup_eq_some_iff]
        split
        next isPlace => simp [same, kept same, isPlace]
        · rfl
    · obtain ⟨free, once⟩ := careful.resolve_left itself i con_file found there
      by_cases isNew : filename = new
      · subst isNew
        split
        next here => simp [here]
        next away =>
          refine iff_of_false (fun named => ?_) (by simpa using Ne.symm away)
          rw [← unique.lookup_eq_some_iff] at named
          rcases free with missing | same
          · cases missing.symm.trans named
          · exact away (Option.mem_unique named same)
      · rw [update_of_ne isNew]
        by_cases isOld : filename = old
        · subst isOld
          refine iff_of_false ?_ (by simp)
          split
          · simp [isNew, erased, once]
          next away => exact fun named => away (unique named (names_of_lookup found))
        · rw [update_of_ne isOld, unique.lookup_eq_some_iff]
          split
          next isPlace => simp [isNew, kept isOld, isPlace]
          · rfl

/-- One call that succeeds: the table is the directory that it should be exactly if the call
is careful.
-/
theorem Step.sound_iff {call : Call} (step : Step name fs call fs') (kept : Kept fs)
    : (Sound name ⟨fs, call, fs'⟩ ↔ CarefulCall name fs call) ∧ 0 < fs'.con_files.length := by
  obtain ⟨unique, nonempty⟩ := kept
  cases step with
  | serve allowed success =>
    cases call with
    | create host pathname O_EXCL O_ACCMODE mode =>
      obtain ⟨missing, longer, i, unnamed, names⟩ := create_names allowed nonempty success
      obtain ⟨denotes, unique'⟩ := create_sound unique missing unnamed names
      refine ⟨iff_of_true ⟨⟨missing, i, ?_, denotes⟩, unique'⟩ trivial, longer⟩
      exact fun filename found => unnamed filename (names_of_lookup found)
    | close number =>
      have same := close_names fs number
      simp only [← unique.lookup_eq_some_iff] at same
      exact ⟨iff_of_true (unique_and_lookup_eq_iff.mpr same) trivial,
        nonempty.trans_eq (close_length fs number).symm⟩
    | link host oldpath newpath =>
      obtain ⟨missing, length, i, found, names⟩ := link_names allowed.1 allowed.2 success
      obtain ⟨denotes, unique'⟩ := link_sound unique missing names
      refine ⟨iff_of_true ⟨⟨?_, ?_, ?_⟩, unique'⟩ trivial, nonempty.trans_eq length.symm⟩
      · simp [found]
      · rw [found]
        exact denotes
      have differ : name oldpath ≠ name newpath := by
        intro same
        rw [same, missing] at found
        cases found
      exact (congrFun denotes _).trans (update_of_ne differ _ _)
    | rename host oldpath newpath =>
      obtain ⟨length, i, con_file, found, there, holds, names⟩ :=
        rename_names allowed.1 allowed.2 success
      refine ⟨?_, nonempty.trans_eq length.symm⟩
      have sound := rename_sound_iff unique found there holds names
      rw [← found] at sound
      exact sound
    | unlink host pathname =>
      obtain ⟨length, i, found, names⟩ := unlink_names allowed success
      exact ⟨unlink_sound_iff unique found names, nonempty.trans_eq length.symm⟩

-- Runs

/-- The table while the standard descriptors are set up, with the paths that are in it. -/
structure Starting (paths : List String) (fs : FileSystem) : Prop where
  unique : Unique fs
  length : fs.con_files.length = INITIAL_CON_FILES
  named : ∀ filename i, Names fs filename i → filename ∈ paths

variable {paths : List String}

theorem Starting.setup_std_fd (starting : Starting paths fs) (new : path ∉ paths) (host : Host)
    (std_fd : Fin MAX_FDS) (inside : i < INITIAL_CON_FILES)
    : Starting (path :: paths) (fs.setup_std_fd host std_fd i path) := by
  have inside : i < fs.con_files.length := by rwa [starting.length]
  have there : fs.con_files[i]? = some fs.con_files[i] := getElem?_eq_getElem inside
  have names (filename : String) (j : Nat)
      : Names (fs.setup_std_fd host std_fd i path) filename j
        ↔ if j = i then filename = path else Names fs filename j := by
    unfold FileSystem.setup_std_fd
    rw [modifyRecord_eq there]
    refine (names_setRecord there filename j).trans ?_
    split
    · exact holds_names (by simp) rfl
    · rfl
  refine ⟨?_, ?_, ?_⟩
  · intro filename j k first second
    rw [names] at first second
    split at first <;> split at second
    · omega
    · subst first
      exact absurd (starting.named _ _ second) new
    · subst second
      exact absurd (starting.named _ _ first) new
    · exact starting.unique first second
  · simpa [FileSystem.setup_std_fd, FileSystem.setFd, FileSystem.modifyRecord]
      using starting.length
  · intro filename j named
    rw [names] at named
    split at named
    · simp [named]
    · exact mem_cons_of_mem _ (starting.named filename j named)

/-- A descriptor of a symbolic file has no record. -/
theorem Starting.setFd (starting : Starting paths fs) (path : String) (fd : Fin MAX_FDS)
    (f : Descriptor)
    : Starting (path :: paths) (fs.setFd fd f) :=
  ⟨starting.unique, starting.length, fun filename i named =>
    mem_cons_of_mem _ (starting.named filename i named)⟩

section

variable (host : Host) (sym_stdin sym_stdout : Bool) (max_failures : Nat) (close_fail : Int)
  (etc_symbolic sym_specific : Bool) (symbolic_size : Int)

theorem klee_init_fds_kept
    : Kept (FileSystem.klee_init_fds host sym_stdin sym_stdout max_failures close_fail
        etc_symbolic sym_specific symbolic_size) := by
  have allocated : Starting [] (FileSystem.allocated host max_failures close_fail etc_symbolic
      sym_specific symbolic_size) := by
    have unnamed (filename : String) (i : Nat)
        : ¬ Names (FileSystem.allocated host max_failures close_fail etc_symbolic sym_specific
            symbolic_size) filename i := by
      rintro ⟨con_file, there, used, -⟩
      simp [FileSystem.allocated] at there
      obtain ⟨_, _, rfl⟩ := there
      exact used rfl
    refine ⟨?_, by simp [FileSystem.allocated], ?_⟩
    · exact fun filename i _ named => absurd named (unnamed filename i)
    · exact fun filename i named => absurd named (unnamed filename i)
  have starting : Starting ["/dev/stderr", "/dev/stdout", "/dev/stdin"]
      (FileSystem.klee_init_fds host sym_stdin sym_stdout max_failures close_fail etc_symbolic
        sym_specific symbolic_size) := by
    unfold FileSystem.klee_init_fds
    generalize FileSystem.allocated .. = fs at allocated ⊢
    refine Starting.setup_std_fd ?_ (by decide) host 2 (by decide)
    cases sym_stdin with
    | true =>
      have one := allocated.setFd "/dev/stdin" 0 { fs.fds 0 with type := .SYMBOLIC_FILE 0 }
      cases sym_stdout with
      | true => exact one.setFd _ _ _
      | false => exact one.setup_std_fd (by decide) host 1 (by decide)
    | false =>
      have one : Starting ["/dev/stdin"] _ :=
        allocated.setup_std_fd (by decide) host 0 (i := 0) (by decide)
      cases sym_stdout with
      | true => exact one.setFd _ _ _
      | false => exact one.setup_std_fd (by decide) host 1 (by decide)
  refine ⟨starting.unique, ?_⟩
  rw [starting.length]
  decide

/-- From the start, the table is a directory throughout a sequence of calls that succeed
exactly when every call is careful.
-/
theorem sound_iff_careful_directory {trace : List (Transition FileSystem Call)}
    {finish : FileSystem}
    (run : Run (Takes (Step name))
      (klee_init_fds host sym_stdin sym_stdout max_failures close_fail etc_symbolic
        sym_specific symbolic_size) trace finish)
    : (∀ transition ∈ trace, Sound name transition)
      ↔ ∀ transition ∈ trace, Careful name transition := by
  refine run.forall_iff Kept (klee_init_fds_kept ..) fun transition step kept => ?_
  obtain ⟨sound, nonempty⟩ := step.sound_iff kept
  exact ⟨sound, fun careful => ⟨(sound.mpr careful).2, nonempty⟩⟩

end

/-- A host without the files that are named. New memory is filled with zeros. -/
def emptyHost : Host where
  realpath path := some path
  get_realpath path := path
  sys_open _ := -1
  sys_access _ := false
  sys_lstat _ := false
  file_size _ := -1
  file_contents _ := none
  symbolic _ := 0
  uninit _ :=
    { size := 0, buf_size := 0, contents := [], mode := 0, refcnt := 0, name := [], fd := 0
      state := .FREE }

theorem absent_emptyHost (path : String) : Absent id emptyHost path where
  realpath := rfl
  get_realpath := rfl
  sys_access := rfl
  sys_open := by simp [emptyHost]

/-- The table after `klee_init_fds` without symbolic files and failures. -/
def started : FileSystem :=
  .klee_init_fds emptyHost false false 0 0 false false 0

def createCall (path : String) : Call :=
  .create emptyHost path false .O_RDWR 0

/-- The table after some calls. -/
def serveAll (fs : FileSystem) (calls : List Call) : FileSystem :=
  calls.foldl (fun fs call => (serve fs call).1) fs

/-- Witness: a file is created, linked to a second name and renamed. -/
theorem sound_iff_careful_directory_linked
    : ∃ trace finish,
        Run (Takes (Step id)) started trace finish
        ∧ trace.map Transition.label
          = [createCall "/a", .link emptyHost "/a" "/b", .rename emptyHost "/a" "/c"]
        ∧ ∀ transition ∈ trace, Sound id transition := by
  let linked := serveAll started [createCall "/a", .link emptyHost "/a" "/b"]
  have run := ((Run.nil.record (Step.serve started (createCall "/a") (absent_emptyHost _)
    (by decide +kernel))).record
    (Step.serve _ (.link emptyHost "/a" "/b") ⟨absent_emptyHost _, absent_emptyHost _⟩
    (by decide +kernel))).record
    (Step.serve linked (.rename emptyHost "/a" "/c") ⟨absent_emptyHost _, absent_emptyHost _⟩
    (by decide +kernel))
  refine ⟨_, _, run, rfl, (sound_iff_careful_directory emptyHost false false 0 0 false false 0
    run).mpr ?_⟩
  intro transition member
  simp at member
  rcases member with rfl | rfl | rfl
  · trivial
  · trivial
  right
  intro i con_file found there
  have place : lookup linked "/a" = some 31 := by decide +kernel
  have free : lookup linked "/c" = none := by decide +kernel
  have slots : (linked.con_files[31]?).map (fun con_file => con_file.name.count (some "/a"))
      = some 1 := by
    decide +kernel
  obtain rfl := Option.mem_unique place found
  refine ⟨.inl free, ?_⟩
  rw [show linked.con_files[31]? = some con_file from there] at slots
  exact Option.some.inj slots

/-- Removing one of two names removes both. A file that is renamed to the name of another
file leaves that file in the table: the name is held twice and still denotes the other file.
-/
theorem unlink_drops_links
    : let linked := serveAll started [createCall "/a", .link emptyHost "/a" "/b"]
      let unlink : Call := .unlink emptyHost "/a"
      let created := serveAll started [createCall "/a", createCall "/b"]
      let rename : Call := .rename emptyHost "/a" "/b"
      (serve linked unlink).2 = 0
      ∧ lookup linked "/b" = some 31 ∧ lookup (serve linked unlink).1 "/b" = none
      ∧ ¬ Sound id ⟨linked, unlink, (serve linked unlink).1⟩
      ∧ (serve created rename).2 = 0
      ∧ lookup created "/a" = some 31 ∧ lookup (serve created rename).1 "/b" = some 30
      ∧ ¬ Sound id ⟨created, rename, (serve created rename).1⟩ := by
  intro linked unlink created rename
  have before : lookup linked "/b" = some 31 := by decide +kernel
  have after : lookup (serve linked unlink).1 "/b" = none := by decide +kernel
  have old : lookup created "/a" = some 31 := by decide +kernel
  have new : lookup (serve created rename).1 "/b" = some 30 := by decide +kernel
  refine ⟨by decide +kernel, before, after, ?_, by decide +kernel, old, new, ?_⟩
  · rintro ⟨directs, -⟩
    have kept := congrFun directs "/b"
    cases before.symm.trans (kept.symm.trans after)
  · rintro ⟨directs, -⟩
    have moved := (congrFun directs "/b").trans (update_self ..)
    cases new.symm.trans (moved.trans old)

end Woodpecker.Posix.Directory
