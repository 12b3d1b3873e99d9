import Mathlib.Data.List.DropRight
import Mathlib.Data.List.Pairwise
import Mathlib.Data.List.Nodup
import DropZone.Transfer.Delivery

/-!
# From what the user typed to a manifest (`client/src/manifest.cpp`)

`build_manifest` looks every input up, walks the directories among them and names each file by the
input's last component and its path below it.

* `FileSystem`: what `lstat` and `readdir` answer. It does not change during the walk.
* `FileSystem.walkDirectory`: the walk, with the longest path that the system opens as its fuel;
  `walkDirectory_fuel`: more makes no difference.
* `FileSystem.buildManifest`: the whole function.
* `Apart`: two paths that can both be written. `FileSystem.Collide`: two inputs that send places which
  clash under one name. `paths_apart`: the files of a manifest, and the receiver's outputs, are apart
  exactly where no two inputs collide. `same_name_collides` for two files of one name.
-/

namespace DropZone

open LittleEndian

/-! ## The file system -/

/-- `PATH_MAX`: `lstat` and `opendir` refuse a path of this length. -/
def kPathMax : Nat := 4096

inductive FileKind where
  | regular
  | directory
  | link
  | other
  deriving DecidableEq

structure Stat where
  kind : FileKind
  size : UInt64
  mode : UInt32
  size_lt : size.toNat < 2 ^ 63

/-- What the operating system answers; a failure is the text of its `errno`. -/
structure FileSystem where
  lstat : Bytes → Except Bytes Stat
  /-- `opendir`, and what `readdir` returns until it has no more. -/
  readdir : Bytes → Except Bytes (List Bytes)
  lstat_path : ∀ {path st}, lstat path = .ok st → path ≠ [] ∧ path.length < kPathMax
  names_nodup : ∀ {directory names}, readdir directory = .ok names → names.Nodup
  name_ok : ∀ {directory names}, readdir directory = .ok names →
    ∀ name ∈ names, name ≠ [] ∧ 47 ∉ name

def failErrno (what errno : Bytes) : Failure := .error (what ++ text ": " ++ errno)

/-! ## Paths -/

/-- The loop at the top of `base_name`: trailing slashes go, but the last byte stays. -/
def stripSlashes (path : Bytes) : Bytes :=
  if path.rdropWhile (· == 47) = [] then path.take 1 else path.rdropWhile (· == 47)

/-- `base_name`: what follows the last slash. -/
def baseName (path : Bytes) : Bytes := (stripSlashes path).rtakeWhile (· != 47)

/-- `expand_user_path`, where `home` is the variable `HOME`. -/
def expandUserPath (home : Option Bytes) (path : Bytes) : Bytes :=
  if path.take 2 = text "~/" then
    match home with
    | none | some [] => path
    | some home => home ++ path.drop 1
  else path

/-- The path that a file is sent under. -/
def relativePath (dirPrefix name : Bytes) : Bytes :=
  if dirPrefix = [] then name else dirPrefix ++ text "/" ++ name

/-! ## The walk -/

/-- All that `f` finds, one after the other, up to the first failure. -/
def collect {ε α β : Type} (f : α → Except ε (List β)) : List α → Except ε (List β)
  | [] => .ok []
  | a :: as => do
    let found ← f a
    let rest ← collect f as
    pure (found ++ rest)

/-- The file that `lstat` reported. -/
def Stat.file (st : Stat) (sourcePath relativePath : Bytes) : LocalFile where
  sourcePath := sourcePath
  relativePath := relativePath
  size := st.size
  mode := st.mode &&& 0o777
  size_lt := st.size_lt
  mode_masked := by rw [UInt32.and_assoc, UInt32.and_self]

namespace FileSystem

variable (fs : FileSystem)

/-- One turn of the loop over the names in a directory, where `walk` goes on below it. Links and whatever
else is not a regular file are skipped. -/
def walkEntry (walk : Bytes → Bytes → Except Failure (List LocalFile)) (directory dirPrefix name : Bytes) :
    Except Failure (List LocalFile) :=
  let path := joinPath directory name
  let relative := relativePath dirPrefix name
  match fs.lstat path with
  | .error errno => .error (failErrno (text "cannot stat '" ++ path ++ text "'") errno)
  | .ok st =>
    match st.kind with
    | .directory => walk path relative
    | .regular => .ok [st.file path relative]
    | .link | .other => .ok []

/-- The names in a directory, in the order of `std::sort`. -/
def sortedNames (names : List Bytes) : List Bytes :=
  (names.filter fun name => name != text "." && name != text "..").mergeSort fun a b => decide (a ≤ b)

/-- `walk_directory`. Nothing is opened under a path of `kPathMax` bytes. -/
def walkDirectory : (fuel : Nat) → (directory dirPrefix : Bytes) → Except Failure (List LocalFile)
  | 0, directory, _ =>
    .error (failErrno (text "cannot read directory '" ++ directory ++ text "'")
      (text "File name too long"))
  | fuel + 1, directory, dirPrefix =>
    match fs.readdir directory with
    | .error errno =>
      .error (failErrno (text "cannot read directory '" ++ directory ++ text "'") errno)
    | .ok names =>
      collect (fs.walkEntry (walkDirectory fuel) directory dirPrefix) (sortedNames names)

def takeInput (home : Option Bytes) (input : Bytes) : Except Failure (List LocalFile) :=
  let path := expandUserPath home input
  match fs.lstat path with
  | .error _ =>
    .error (.userError (text "cannot send '" ++ input ++ text "': no such file or directory"))
  | .ok st =>
    match st.kind with
    | .directory => fs.walkDirectory kPathMax path (baseName path)
    | .regular => .ok [st.file path (baseName path)]
    | .link | .other => .error (.userError (text "cannot send '" ++ input ++
        text "': only regular files and directories are sent"))

end FileSystem

/-- What the receiver is told that it is offered. -/
def displayName (home : Option Bytes) : List Bytes → Bytes
  | [input] => baseName (expandUserPath home input)
  | inputs => decimal inputs.length ++ text " items"

def FileSystem.buildManifest (fs : FileSystem) (home : Option Bytes) (inputs : List Bytes) :
    Except Failure Manifest := do
  let files ← collect (fs.takeInput home) inputs
  DropZone.buildManifest files (displayName home inputs)

/-! ## What is collected -/

/-- What `f` finds at `a`, if it does not fail. -/
def foundAt {ε α β : Type} (f : α → Except ε (List β)) (a : α) : List β :=
  match f a with
  | .ok found => found
  | .error _ => []

section Collect

variable {ε α β : Type} {f g : α → Except ε (List β)}

theorem foundAt_eq {a : α} {found : List β} (h : f a = .ok found) : foundAt f a = found := by
  rw [foundAt, h]

theorem collect_ok {as : List α} {found : List β} (h : collect f as = .ok found) :
    (∀ a ∈ as, f a = .ok (foundAt f a)) ∧ found = as.flatMap (foundAt f) := by
  induction as generalizing found with
  | nil =>
    cases h
    exact ⟨fun _ ha => absurd ha List.not_mem_nil, rfl⟩
  | cons a as ih =>
    unfold collect at h
    cases hfirst : f a with
    | error e =>
      rw [hfirst] at h
      cases h
    | ok part =>
      cases hrest : collect f as with
      | error e =>
        rw [hfirst, hrest] at h
        cases h
      | ok rest =>
        rw [hfirst, hrest] at h
        cases h
        obtain ⟨hall, rfl⟩ := ih hrest
        rw [List.forall_mem_cons, List.flatMap_cons, foundAt_eq hfirst]
        exact ⟨⟨hfirst, hall⟩, rfl⟩

theorem collect_congr {as : List α} (h : ∀ a ∈ as, f a = g a) : collect f as = collect g as := by
  induction as with
  | nil => rfl
  | cons a as ih =>
    unfold collect
    rw [h a List.mem_cons_self, ih fun b hb => h b (List.mem_cons_of_mem _ hb)]

theorem collect_of_ok {part : α → List β} {as : List α} (h : ∀ a ∈ as, f a = .ok (part a)) :
    collect f as = .ok (as.flatMap part) := by
  induction as with
  | nil => rfl
  | cons a as ih =>
    unfold collect
    rw [h a List.mem_cons_self, ih fun b hb => h b (List.mem_cons_of_mem _ hb)]
    rfl

end Collect

/-! ## The walk comes to an end -/

theorem length_joinPath {directory name : Bytes} (hdirectory : directory ≠ []) (hname : name ≠ [])
    (hslash : 47 ∉ name) : directory.length < (joinPath directory name).length := by
  have hhead : name.head? ≠ some 47 := fun h => hslash (List.mem_of_mem_head? h)
  have hpos : 0 < name.length := List.length_pos_iff.mpr hname
  unfold joinPath
  rw [if_neg hdirectory, if_neg hname, if_neg hhead]
  split
  · rw [List.length_append]
    omega
  · rw [List.length_append, List.length_cons]
    omega

namespace FileSystem

variable {fs : FileSystem}

theorem mem_sortedNames {names : List Bytes} {name : Bytes} (h : name ∈ sortedNames names) :
    name ∈ names := by
  rw [sortedNames, List.mem_mergeSort] at h
  exact List.mem_of_mem_filter h

theorem sortedNames_nodup {names : List Bytes} (h : names.Nodup) : (sortedNames names).Nodup :=
  (List.mergeSort_perm _ _).nodup_iff.mpr (h.filter _)

/-- With a path that `lstat` accepts, the fuel does not run out: more of it makes no difference. -/
theorem walkDirectory_fuel {fuel : Nat} {directory : Bytes} (hne : directory ≠ [])
    (hlen : directory.length < kPathMax) (hfuel : kPathMax ≤ fuel + directory.length)
    (dirPrefix : Bytes) (more : Nat) :
    fs.walkDirectory (fuel + more) directory dirPrefix = fs.walkDirectory fuel directory dirPrefix := by
  induction fuel generalizing directory dirPrefix with
  | zero => omega
  | succ fuel ih =>
    rw [Nat.succ_add]
    unfold walkDirectory
    split
    · rfl
    · rename_i names hnames
      refine collect_congr fun name hmem => ?_
      obtain ⟨hname, hslash⟩ := fs.name_ok hnames name (mem_sortedNames hmem)
      unfold walkEntry
      dsimp only
      split
      · rfl
      · rename_i st hst
        obtain ⟨hpath, hshort⟩ := fs.lstat_path hst
        have hlonger := length_joinPath hne hname hslash
        split
        · exact ih hpath hshort (by omega) _
        · rfl
        · rfl
        · rfl

end FileSystem

/-! ## Paths that do not get in each other's way -/

/-- Two different paths, none of which is a directory on the way to the other. -/
structure Apart (a b : Bytes) : Prop where
  ne : a ≠ b
  left : ¬ a ++ [47] <+: b
  right : ¬ b ++ [47] <+: a

/-- With a slash behind them, neither of two paths that are apart begins the other. -/
theorem apart_iff {a b : Bytes} : Apart a b ↔ ¬ a ++ [47] <+: b ++ [47] ∧ ¬ b ++ [47] <+: a ++ [47] := by
  have hsplit : ∀ {a b : Bytes}, a ++ [47] <+: b ++ [47] ↔ a = b ∨ a ++ [47] <+: b := by
    intro a b
    rw [List.prefix_concat_iff, List.append_left_inj]
  rw [hsplit, hsplit]
  constructor
  · rintro ⟨hne, hleft, hright⟩
    exact ⟨not_or.mpr ⟨hne, hleft⟩, not_or.mpr ⟨hne.symm, hright⟩⟩
  · rintro ⟨hleft, hright⟩
    exact ⟨fun h => hleft (.inl h), fun h => hleft (.inr h), fun h => hright (.inr h)⟩

theorem apart_append_left {front a b : Bytes} : Apart (front ++ a) (front ++ b) ↔ Apart a b := by
  rw [apart_iff, apart_iff, List.append_assoc, List.append_assoc, List.prefix_append_right_inj,
    List.prefix_append_right_inj]

/-- Paths below different names are apart. -/
theorem apart_of_names {front n m a b : Bytes} (hn : 47 ∉ n) (hm : 47 ∉ m) (hne : n ≠ m)
    (ha : front ++ n ++ [47] <+: a ++ [47]) (hb : front ++ m ++ [47] <+: b ++ [47]) : Apart a b := by
  -- of two strings that end with their first slash, none begins the other
  have hfirst : ∀ {n m : Bytes}, 47 ∉ m → n ++ [47] <+: m ++ [47] → n = m := by
    intro n m hm h
    rw [List.prefix_concat_iff, List.append_left_inj] at h
    refine h.resolve_right fun h => hm (h.subset ?_)
    exact List.mem_append_right _ (List.mem_singleton_self _)
  have hboth : ∀ {c : Bytes}, front ++ n ++ [47] <+: c → front ++ m ++ [47] <+: c → False := by
    intro c hnc hmc
    rcases List.prefix_or_prefix_of_prefix hnc hmc with h | h
    · rw [List.append_assoc, List.append_assoc, List.prefix_append_right_inj] at h
      exact hne (hfirst hm h)
    · rw [List.append_assoc, List.append_assoc, List.prefix_append_right_inj] at h
      exact hne (hfirst hn h).symm
  rw [apart_iff]
  exact ⟨fun h => hboth (ha.trans h) hb, fun h => hboth ha (hb.trans h)⟩

theorem baseName_slash (path : Bytes) : 47 ∉ baseName path := by
  intro h
  have := List.mem_rtakeWhile_imp h
  simp at this

/-! ## The files that the walk finds -/

/-- The files lie below `path`, and no two of them get in each other's way. -/
structure Below (path : Bytes) (files : List LocalFile) : Prop where
  inside : ∀ file ∈ files, path ++ [47] <+: file.relativePath ++ [47]
  apart : files.Pairwise fun a b => Apart a.relativePath b.relativePath

theorem Below.single (st : Stat) (source path : Bytes) : Below path [st.file source path] where
  inside file h := by
    cases List.mem_singleton.mp h
    exact List.prefix_refl _
  apart := List.pairwise_singleton _ _

/-- What is found below each of these names of one place. -/
structure Listed (front : Bytes) (names : List Bytes) (part : Bytes → List LocalFile) : Prop where
  slash : ∀ name ∈ names, 47 ∉ name
  below : ∀ name ∈ names, Below (front ++ name) (part name)

theorem Listed.apart {front : Bytes} {names : List Bytes} {part : Bytes → List LocalFile}
    (h : Listed front names part) (hnodup : names.Nodup) :
    (names.flatMap part).Pairwise fun a b => Apart a.relativePath b.relativePath := by
  rw [List.pairwise_flatMap]
  refine ⟨fun n hn => (h.below n hn).apart, hnodup.imp_of_mem fun {n m} hn hm hne a ha b hb => ?_⟩
  exact apart_of_names (h.slash n hn) (h.slash m hm) hne ((h.below n hn).inside a ha)
    ((h.below m hm).inside b hb)

/-- A file of the one list and a file of the other are in each other's way. -/
def Met (files others : List LocalFile) : Prop :=
  ∃ a ∈ files, ∃ b ∈ others, ¬ Apart a.relativePath b.relativePath

theorem Met.symm {files others : List LocalFile} (h : Met files others) : Met others files := by
  obtain ⟨a, ha, b, hb, hab⟩ := h
  exact ⟨b, hb, a, ha, fun ⟨hne, hleft, hright⟩ => hab ⟨hne.symm, hright, hleft⟩⟩

/-- Only files below one name meet. -/
theorem Listed.met {front : Bytes} {names names' : List Bytes} {part part' : Bytes → List LocalFile}
    (h : Listed front names part) (h' : Listed front names' part') :
    Met (names.flatMap part) (names'.flatMap part') ↔
      ∃ name ∈ names, name ∈ names' ∧ Met (part name) (part' name) := by
  constructor
  · rintro ⟨a, ha, b, hb, hab⟩
    obtain ⟨n, hn, ha⟩ := List.mem_flatMap.mp ha
    obtain ⟨m, hm, hb⟩ := List.mem_flatMap.mp hb
    have hnm : n = m := by
      by_contra hne
      exact hab (apart_of_names (h.slash n hn) (h'.slash m hm) hne ((h.below n hn).inside a ha)
        ((h'.below m hm).inside b hb))
    subst hnm
    exact ⟨n, hn, hm, a, ha, b, hb, hab⟩
  · rintro ⟨n, hn, hm, a, ha, b, hb, hab⟩
    exact ⟨a, List.mem_flatMap.mpr ⟨n, hn, ha⟩, b, List.mem_flatMap.mpr ⟨n, hm, hb⟩, hab⟩

/-- What stands before the names of a directory's files. -/
def front (dirPrefix : Bytes) : Bytes := if dirPrefix = [] then [] else dirPrefix ++ [47]

theorem relativePath_eq (dirPrefix name : Bytes) : relativePath dirPrefix name = front dirPrefix ++ name := by
  unfold relativePath front
  split <;> rfl

theorem relativePath_ne {path name : Bytes} (h : name ≠ []) : relativePath path name ≠ [] := by
  rw [relativePath_eq]
  exact List.append_ne_nil_of_right_ne_nil _ h

theorem Listed.of_below (path : Bytes) {names : List Bytes} {part : Bytes → List LocalFile}
    (hok : ∀ name ∈ names, name ≠ [] ∧ 47 ∉ name)
    (h : ∀ name ∈ names, relativePath path name ≠ [] → Below (relativePath path name) (part name)) :
    Listed (front path) names part where
  slash name hname := (hok name hname).2
  below name hname := by
    rw [← relativePath_eq]
    exact h name hname (relativePath_ne (hok name hname).1)

namespace FileSystem

/-! ## Places that clash -/

section Places

variable (fs : FileSystem)

def kindAt (place : Bytes) : Option FileKind := (fs.lstat place).toOption.map Stat.kind

/-- The names that the walk looks at in `place`. -/
def namesIn (place : Bytes) : List Bytes :=
  if fs.kindAt place = some .directory then sortedNames ((fs.readdir place).toOption.getD []) else []

/-- `place` is a regular file or has one below it. -/
inductive Holds : Bytes → Prop
  | file {place : Bytes} (hkind : fs.kindAt place = some .regular) : Holds place
  | under {place name : Bytes} (hname : name ∈ fs.namesIn place) (h : Holds (joinPath place name)) :
      Holds place

/-- Two places cannot both have one name: the same names lead from the one to a file, and from the other
to a file or to a directory with one below it. -/
inductive Clash : Bytes → Bytes → Prop
  | left {a b : Bytes} (ha : fs.kindAt a = some .regular) (hb : fs.Holds b) : Clash a b
  | right {a b : Bytes} (ha : fs.Holds a) (hb : fs.kindAt b = some .regular) : Clash a b
  | under {a b name : Bytes} (ha : name ∈ fs.namesIn a) (hb : name ∈ fs.namesIn b)
      (h : Clash (joinPath a name) (joinPath b name)) : Clash a b

/-- The names that an input is sent under: its last component or, for the root, all names in it. -/
def topNames (path : Bytes) : List Bytes :=
  if baseName path = [] then fs.namesIn path else [baseName path]

def topPlace (path name : Bytes) : Bytes := if baseName path = [] then joinPath path name else path

/-- Two inputs send places that clash under one name. -/
def Collide (home : Option Bytes) (input other : Bytes) : Prop :=
  ∃ name ∈ fs.topNames (expandUserPath home input), name ∈ fs.topNames (expandUserPath home other) ∧
    fs.Clash (topPlace (expandUserPath home input) name) (topPlace (expandUserPath home other) name)

/-- What is sent of `place` under `path`. -/
inductive Sent : Bytes → Bytes → List LocalFile → Prop
  | file {place path : Bytes} {st : Stat} (hkind : fs.kindAt place = some .regular) :
      Sent place path [st.file place path]
  | parts {place path : Bytes} {part : Bytes → List LocalFile} (hkind : fs.kindAt place ≠ some .regular)
      (hpart : ∀ name ∈ fs.namesIn place, Sent (joinPath place name) (relativePath path name) (part name)) :
      Sent place path ((fs.namesIn place).flatMap part)

end Places

variable {fs : FileSystem} {place other path : Bytes} {files others : List LocalFile}
variable {home : Option Bytes}

theorem kindAt_of {st : Stat} (h : fs.lstat place = .ok st) : fs.kindAt place = some st.kind := by
  rw [kindAt, h]
  rfl

theorem namesIn_of (h : fs.kindAt place ≠ some .directory) : fs.namesIn place = [] := if_neg h

theorem namesIn_ok (place : Bytes) :
    (fs.namesIn place).Nodup ∧ ∀ name ∈ fs.namesIn place, name ≠ [] ∧ 47 ∉ name := by
  unfold namesIn
  split
  · cases hnames : fs.readdir place with
    | error _ => simp [Except.toOption, sortedNames]
    | ok names =>
      exact ⟨sortedNames_nodup (fs.names_nodup hnames), fun name hname =>
        fs.name_ok hnames name (mem_sortedNames hname)⟩
  · simp

theorem Sent.skipped (h : fs.kindAt place ≠ some .regular) (h' : fs.kindAt place ≠ some .directory) :
    fs.Sent place path [] := by
  have hparts := @Sent.parts fs place path (fun _ => []) h
  rw [namesIn_of h'] at hparts
  exact hparts fun _ hname => absurd hname List.not_mem_nil

theorem walkEntry_sent {walk : Bytes → Bytes → Except Failure (List LocalFile)}
    (hwalk : ∀ {place path files}, fs.kindAt place = some .directory → walk place path = .ok files →
      fs.Sent place path files) {name : Bytes} (h : fs.walkEntry walk place path name = .ok files) :
    fs.Sent (joinPath place name) (relativePath path name) files := by
  unfold walkEntry at h
  dsimp only at h
  split at h
  · cases h
  · rename_i st hst
    have hkind := kindAt_of hst
    split at h <;> rename_i hst' <;> rw [hst'] at hkind
    · exact hwalk hkind h
    · cases h
      exact .file hkind
    all_goals
      cases h
      exact .skipped (by simp [hkind]) (by simp [hkind])

theorem walkDirectory_sent {fuel : Nat} (hkind : fs.kindAt place = some .directory)
    (h : fs.walkDirectory fuel place path = .ok files) : fs.Sent place path files := by
  induction fuel generalizing place path files with
  | zero => cases h
  | succ fuel ih =>
    unfold walkDirectory at h
    split at h
    · cases h
    · rename_i names hnames
      obtain ⟨hfound, rfl⟩ := collect_ok h
      have hin : fs.namesIn place = sortedNames names := by
        rw [namesIn, if_pos hkind, hnames]
        rfl
      rw [← hin] at hfound ⊢
      exact .parts (by simp [hkind]) fun name hname => walkEntry_sent ih (hfound name hname)

theorem takeInput_sent {input : Bytes} (h : fs.takeInput home input = .ok files) :
    fs.Sent (expandUserPath home input) (baseName (expandUserPath home input)) files := by
  unfold takeInput at h
  dsimp only at h
  split at h
  · cases h
  · rename_i st hst
    have hkind := kindAt_of hst
    split at h <;> rename_i hst' <;> rw [hst'] at hkind
    · exact walkDirectory_sent hkind h
    · cases h
      exact .file hkind
    · cases h
    · cases h

theorem Sent.isBelow (h : fs.Sent place path files) (hne : path ≠ []) : Below path files := by
  induction h with
  | file _ => exact .single _ _ _
  | @parts place path part _ _ ih =>
    have hlisted := Listed.of_below _ (namesIn_ok place).2 ih
    refine ⟨fun file hfile => ?_, hlisted.apart (namesIn_ok place).1⟩
    obtain ⟨name, hname, hfile⟩ := List.mem_flatMap.mp hfile
    refine List.IsPrefix.trans ?_ ((hlisted.below name hname).inside file hfile)
    rw [front, if_neg hne, List.append_assoc]
    exact List.prefix_append _ _

theorem Sent.holds (h : fs.Sent place path files) : files ≠ [] ↔ fs.Holds place := by
  induction h with
  | file hkind => exact ⟨fun _ => .file hkind, fun _ => List.cons_ne_nil _ _⟩
  | @parts place path part hkind _ ih =>
    constructor
    · intro hne
      obtain ⟨file, hfile⟩ := List.exists_mem_of_ne_nil _ hne
      obtain ⟨name, hname, hfile⟩ := List.mem_flatMap.mp hfile
      exact .under hname ((ih name hname).mp (List.ne_nil_of_mem hfile))
    · intro h
      cases h with
      | file h => exact absurd h hkind
      | under hname h =>
        obtain ⟨file, hfile⟩ := List.exists_mem_of_ne_nil _ ((ih _ hname).mpr h)
        exact List.ne_nil_of_mem (List.mem_flatMap.mpr ⟨_, hname, hfile⟩)

theorem Clash.symm (h : fs.Clash place other) : fs.Clash other place := by
  induction h with
  | left ha hb => exact .right hb ha
  | right ha hb => exact .left hb ha
  | under ha hb _ ih => exact .under hb ha ih

/-- A regular file is in the way of all that is sent under its path. -/
theorem Sent.met_file (hkind : fs.kindAt other = some .regular) (h : fs.Sent place path files)
    (hne : path ≠ []) (st : Stat) (source : Bytes) :
    Met [st.file source path] files ↔ fs.Clash other place := by
  constructor
  · rintro ⟨-, -, b, hb, -⟩
    exact .left hkind (h.holds.mp (List.ne_nil_of_mem hb))
  · intro hclash
    have hholds : fs.Holds place := by
      cases hclash with
      | left _ hb => exact hb
      | right _ hb => exact .file hb
      | under ha _ _ =>
        rw [namesIn_of (by simp [hkind])] at ha
        cases ha
    obtain ⟨b, hb⟩ := List.exists_mem_of_ne_nil _ (h.holds.mpr hholds)
    refine ⟨_, List.mem_singleton_self _, b, hb, fun hapart => ?_⟩
    exact (apart_iff.mp hapart).1 ((h.isBelow hne).inside b hb)

/-- What two places send under one path collides exactly where the places clash. -/
theorem Sent.met (h : fs.Sent place path files) (h' : fs.Sent other path others) (hne : path ≠ []) :
    Met files others ↔ fs.Clash place other := by
  induction h generalizing other others with
  | file hkind => exact h'.met_file hkind hne _ _
  | @parts place path part hkind hpart ih =>
    cases h' with
    | file hkind' =>
      have h := (Sent.parts hkind hpart).met_file hkind' hne
      exact ⟨fun hmet => ((h _ _).mp hmet.symm).symm, fun hclash => ((h _ _).mpr hclash.symm).symm⟩
    | @parts _ _ part' hkind' hpart' =>
      have hmet : ∀ {name}, name ∈ fs.namesIn place → name ∈ fs.namesIn other →
          (Met (part name) (part' name) ↔ fs.Clash (joinPath place name) (joinPath other name)) :=
        fun hname hname' => ih _ hname (hpart' _ hname')
          (relativePath_ne ((namesIn_ok place).2 _ hname).1)
      rw [(Listed.of_below _ (namesIn_ok place).2 fun _ hname => (hpart _ hname).isBelow).met
        (.of_below _ (namesIn_ok other).2 fun _ hname => (hpart' _ hname).isBelow)]
      constructor
      · rintro ⟨name, hname, hname', h⟩
        exact .under hname hname' ((hmet hname hname').mp h)
      · intro hclash
        cases hclash with
        | left ha _ => exact absurd ha hkind
        | right _ hb => exact absurd hb hkind'
        | under hname hname' h => exact ⟨_, hname, hname', (hmet hname hname').mpr h⟩

/-! ## What the inputs give -/

/-- The files of an input, by the names that they are sent under. -/
theorem Sent.tops (h : fs.Sent path (baseName path) files)
    (hsafe : ∀ file ∈ files, isSafeRelativePath file.relativePath = true) :
    ∃ part, files = (fs.topNames path).flatMap part ∧ (fs.topNames path).Nodup ∧
      ∀ name ∈ fs.topNames path, (name ≠ [] ∧ 47 ∉ name) ∧ fs.Sent (topPlace path name) name (part name) := by
  unfold topNames topPlace
  split
  · rename_i hnil
    rw [hnil] at h
    cases h with
    | file _ => cases hsafe _ (List.mem_singleton_self _)
    | parts _ hpart =>
      refine ⟨_, rfl, (namesIn_ok path).1, fun name hname => ?_⟩
      exact ⟨(namesIn_ok path).2 name hname, hpart name hname⟩
  · rename_i hne
    refine ⟨fun _ => files, by simp, List.nodup_singleton _, fun name hname => ?_⟩
    rw [List.mem_singleton.mp hname]
    exact ⟨⟨hne, baseName_slash path⟩, h⟩

/-- What one input gives is apart, and two inputs get in each other's way exactly where they collide. -/
theorem takeInput_met {input other : Bytes} (h : fs.takeInput home input = .ok files)
    (h' : fs.takeInput home other = .ok others)
    (hsafe : ∀ file ∈ files, isSafeRelativePath file.relativePath = true)
    (hsafe' : ∀ file ∈ others, isSafeRelativePath file.relativePath = true) :
    (files.Pairwise fun a b => Apart a.relativePath b.relativePath) ∧
      (Met files others ↔ fs.Collide home input other) := by
  obtain ⟨part, rfl, hnodup, hpart⟩ := (takeInput_sent h).tops hsafe
  obtain ⟨part', rfl, -, hpart'⟩ := (takeInput_sent h').tops hsafe'
  have hlisted := Listed.of_below [] (fun name hname => (hpart name hname).1) fun name hname =>
    (hpart name hname).2.isBelow
  refine ⟨hlisted.apart hnodup, ?_⟩
  rw [hlisted.met (.of_below [] (fun name hname => (hpart' name hname).1) fun name hname =>
    (hpart' name hname).2.isBelow)]
  refine exists_congr fun name => and_congr_right fun hname => and_congr_right fun hname' => ?_
  exact (hpart name hname).2.met (hpart' name hname').2 (hpart name hname).1.1

/-- Inputs with different last components do not collide. -/
theorem not_collide {input other : Bytes}
    (h : baseName (expandUserPath home input) ≠ []) (h' : baseName (expandUserPath home other) ≠ [])
    (hne : baseName (expandUserPath home input) ≠ baseName (expandUserPath home other)) :
    ¬ fs.Collide home input other := by
  rintro ⟨name, hname, hname', -⟩
  rw [topNames, if_neg h, List.mem_singleton] at hname
  rw [topNames, if_neg h', List.mem_singleton] at hname'
  exact hne (hname.symm.trans hname')

theorem buildManifest_ok {inputs : List Bytes} {manifest : Manifest}
    (h : fs.buildManifest home inputs = .ok manifest) :
    collect (fs.takeInput home) inputs = .ok manifest.files ∧
      manifest.displayName = displayName home inputs := by
  unfold FileSystem.buildManifest at h
  cases hfiles : collect (fs.takeInput home) inputs with
  | error e =>
    rw [hfiles] at h
    cases h
  | ok files =>
    rw [hfiles] at h
    change DropZone.buildManifest files (displayName home inputs) = .ok manifest at h
    unfold DropZone.buildManifest at h
    split at h
    · cases h
    · split at h
      · cases h
      · split at h
        · cases h
        · cases h
          exact ⟨rfl, rfl⟩

/-- The files that the inputs give are accepted unless there are none, too many or unsafe ones. -/
theorem buildManifest_of {inputs : List Bytes} {files : List LocalFile}
    (hfound : collect (fs.takeInput home) inputs = .ok files) (hempty : files ≠ [])
    (hcount : files.length ≤ kMaxManifestEntries)
    (hsafe : ∀ file ∈ files, isSafeRelativePath file.relativePath = true) :
    ∃ manifest, fs.buildManifest home inputs = .ok manifest ∧ manifest.files = files := by
  have hnone : unsafeInput files = none := by
    simpa [unsafeInput] using hsafe
  refine ⟨⟨files, _, displayName home inputs, hempty, hcount, hsafe, rfl⟩, ?_, rfl⟩
  unfold FileSystem.buildManifest
  rw [hfound]
  change DropZone.buildManifest files (displayName home inputs) = _
  unfold DropZone.buildManifest
  rw [dif_neg hempty, dif_neg (Nat.not_lt.mpr hcount)]
  split
  · rename_i e he
    cases hnone.symm.trans he
  · rfl

def oneByte : Stat := ⟨.regular, 1, 0o644, by decide⟩

def folder : Stat := ⟨.directory, 4096, 0o755, by decide⟩

/-- One directory and its names, and a regular file of one byte wherever `regular` says so. -/
def flat (regular : Bytes → Bool) (directory : Bytes) (names : List Bytes) (hnodup : names.Nodup)
    (hnames : ∀ name ∈ names, name ≠ [] ∧ 47 ∉ name) : FileSystem where
  lstat path :=
    if path = [] ∨ kPathMax ≤ path.length then .error (text "No such file or directory")
    else if path = directory then .ok folder
    else if regular path then .ok oneByte
    else .error (text "No such file or directory")
  readdir path :=
    if path = directory then .ok names else .error (text "No such file or directory")
  lstat_path {path st} h := by
    split at h
    · cases h
    · rename_i hpath
      rw [not_or, Nat.not_le] at hpath
      exact hpath
  names_nodup {path found} h := by
    split at h
    · cases h
      exact hnodup
    · cases h
  name_ok {path found} h := by
    split at h
    · cases h
      exact hnames
    · cases h

section Flat

variable {regular : Bytes → Bool} {directory path : Bytes} {names : List Bytes} {hnodup : names.Nodup}
  {hnames : ∀ name ∈ names, name ≠ [] ∧ 47 ∉ name}

theorem flat_readdir : (flat regular directory names hnodup hnames).readdir directory = .ok names :=
  if_pos rfl

theorem flat_lstat_directory (hne : directory ≠ []) (hlen : directory.length < kPathMax) :
    (flat regular directory names hnodup hnames).lstat directory = .ok folder := by
  dsimp only [flat]
  rw [if_neg (not_or.mpr ⟨hne, Nat.not_le.mpr hlen⟩), if_pos rfl]

theorem flat_lstat (hne : path ≠ []) (hlen : path.length < kPathMax) (hother : path ≠ directory)
    (hregular : regular path = true) :
    (flat regular directory names hnodup hnames).lstat path = .ok oneByte := by
  dsimp only [flat]
  rw [if_neg (not_or.mpr ⟨hne, Nat.not_le.mpr hlen⟩), if_neg hother, if_pos hregular]

end Flat

end FileSystem

/-- **Files do not collide** exactly where no two inputs do: no two files of the manifest have the same
path and none has a path that is a directory of another's; and on the receiver, no two entries have the
same output and no output is a directory of another. -/
theorem paths_apart {fs : FileSystem} {home : Option Bytes} {inputs : List Bytes} {manifest : Manifest}
    (h : fs.buildManifest home inputs = .ok manifest) :
    ((manifest.files.Pairwise fun a b => Apart a.relativePath b.relativePath) ↔
      inputs.Pairwise fun input other => ¬ fs.Collide home input other) ∧
    ∀ directory digest, ∃ paths,
      resolveOutputPaths directory (toWireEntries manifest digest) = .ok paths ∧
      paths.length = manifest.files.length ∧
      (paths.Pairwise Apart ↔ inputs.Pairwise fun input other => ¬ fs.Collide home input other) := by
  have hapart : (manifest.files.Pairwise fun a b => Apart a.relativePath b.relativePath) ↔
      inputs.Pairwise fun input other => ¬ fs.Collide home input other := by
    obtain ⟨hfound, hfiles⟩ := collect_ok (FileSystem.buildManifest_ok h).1
    have hsafe : ∀ input ∈ inputs, ∀ file ∈ foundAt (fs.takeInput home) input,
        isSafeRelativePath file.relativePath = true := fun input hinput file hfile =>
      manifest.safe file (hfiles ▸ List.mem_flatMap.mpr ⟨input, hinput, hfile⟩)
    have hmet : ∀ input ∈ inputs, ∀ other ∈ inputs, _ := fun input hinput other hother =>
      FileSystem.takeInput_met (hfound input hinput) (hfound other hother) (hsafe input hinput)
        (hsafe other hother)
    rw [hfiles, List.pairwise_flatMap, and_iff_right fun input hinput => (hmet input hinput input hinput).1]
    refine List.Pairwise.iff_of_mem fun {input other} hinput hother => ?_
    rw [← (hmet input hinput other hother).2]
    simp only [Met, not_exists, not_and, not_not]
  refine ⟨hapart, fun directory digest => ⟨_, resolveOutputPaths_of_safe fun entry hentry => ?_, ?_, ?_⟩⟩
  · obtain ⟨file, hfile, rfl⟩ := List.mem_map.mp hentry
    exact manifest.safe file hfile
  · rw [List.length_map, toWireEntries, List.length_map]
  · rw [toWireEntries, List.map_map, List.pairwise_map, ← hapart]
    refine List.Pairwise.iff_of_mem fun {a b} ha hb => ?_
    dsimp only [Function.comp_apply]
    rw [joinPath_of_safe (manifest.safe a ha), joinPath_of_safe (manifest.safe b hb)]
    exact apart_append_left

def allRegular : FileSystem := .flat (fun _ => true) [] [] .nil (fun _ h => absurd h List.not_mem_nil)

theorem takeInput_allRegular {input : Bytes} (hne : input ≠ []) (hlen : input.length < kPathMax) :
    allRegular.takeInput none input =
      .ok [FileSystem.oneByte.file input (baseName input)] := by
  have hhome : expandUserPath none input = input := by
    unfold expandUserPath
    split <;> rfl
  have hstat : allRegular.lstat input = .ok FileSystem.oneByte := FileSystem.flat_lstat hne hlen hne rfl
  unfold FileSystem.takeInput
  dsimp only
  rw [hhome, hstat]
  rfl

theorem two_files (a b : Bytes) (ha : a ≠ [] ∧ a.length < kPathMax) (hb : b ≠ [] ∧ b.length < kPathMax)
    (hsafe : isSafeRelativePath (baseName a) = true ∧ isSafeRelativePath (baseName b) = true) :
    ∃ manifest, allRegular.buildManifest none [a, b] = .ok manifest ∧
      manifest.files.map LocalFile.sourcePath = [a, b] ∧
      manifest.files.map LocalFile.relativePath = [baseName a, baseName b] := by
  have hfound : collect (allRegular.takeInput none) [a, b] =
      .ok [FileSystem.oneByte.file a (baseName a),
        FileSystem.oneByte.file b (baseName b)] := by
    rw [collect, takeInput_allRegular ha.1 ha.2, collect, takeInput_allRegular hb.1 hb.2]
    rfl
  obtain ⟨manifest, hbuild, hfiles⟩ := FileSystem.buildManifest_of hfound (by simp)
    (by simp [kMaxManifestEntries]) (by simpa [Stat.file] using hsafe)
  refine ⟨manifest, hbuild, ?_, ?_⟩
  all_goals
    rw [hfiles]
    rfl

theorem paths_apart_two : ∃ manifest, allRegular.buildManifest none [text "a/x", text "b/y"] = .ok manifest ∧
    manifest.files.length = 2 ∧
    (manifest.files.Pairwise fun a b => Apart a.relativePath b.relativePath) := by
  obtain ⟨manifest, hbuild, hsources, -⟩ := two_files (text "a/x") (text "b/y") (by decide) (by decide)
    (by decide)
  refine ⟨manifest, hbuild, ?_, (paths_apart hbuild).1.mpr (List.pairwise_pair.mpr ?_)⟩
  · have := congrArg List.length hsources
    rwa [List.length_map] at this
  · exact FileSystem.not_collide (by decide) (by decide) (by decide)

/-- Two files with the same name in different directories: the manifest is accepted, and the receiver is
to write both to one output. -/
theorem same_name_collides : ∃ manifest,
    allRegular.buildManifest none [text "a/x", text "b/x"] = .ok manifest ∧
    manifest.files.map LocalFile.sourcePath = [text "a/x", text "b/x"] ∧
    manifest.files.map LocalFile.relativePath = [text "x", text "x"] ∧
    ∀ directory digest, resolveOutputPaths directory (toWireEntries manifest digest) =
      .ok [joinPath directory (text "x"), joinPath directory (text "x")] := by
  obtain ⟨manifest, hbuild, hsources, hpaths⟩ := two_files (text "a/x") (text "b/x") (by decide) (by decide)
    (by decide)
  have hpaths : manifest.files.map LocalFile.relativePath = [text "x", text "x"] := by
    rw [hpaths]
    decide
  refine ⟨manifest, hbuild, hsources, hpaths, fun directory digest => ?_⟩
  rw [resolveOutputPaths_of_safe fun entry hentry => ?_]
  · have hmap := congrArg (List.map (joinPath directory)) hpaths
    rw [List.map_map] at hmap
    rw [toWireEntries, List.map_map]
    exact congrArg _ hmap
  · obtain ⟨file, hfile, rfl⟩ := List.mem_map.mp hentry
    exact manifest.safe file hfile

end DropZone
