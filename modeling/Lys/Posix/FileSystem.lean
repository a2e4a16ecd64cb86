import Lys.RustStd.Array

open rust

namespace posix

abbrev Name := Bytes

/-- A path by its components. -/
abbrev Path := List Name

/-- The kinds of I/O errors that callers see. -/
inductive IoError where
  | NotFound
  | AlreadyExists
  | NotADirectory
  | IsADirectory
  | WriteZero
  | Other
deriving DecidableEq

inductive Node where
  | directory
  | file (inode : Nat)
deriving DecidableEq

/-- What stands at a path, for readers. -/
inductive Entry where
  | directory
  | file (bytes : Bytes)
deriving DecidableEq

/-- A directory tree over files. Every entry stands in a directory, and every file has
contents. -/
structure Fs where
  entries : AList fun _ : Path => Node
  contents : List Bytes
  closed : ∀ path name, path ++ [name] ∈ entries → path = [] ∨ entries.lookup path = some .directory
  inode_lt : ∀ path inode, entries.lookup path = some (.file inode) → inode < contents.length

namespace Fs

/-- What a path names. The empty path is the root. -/
def find (fs : Fs) (path : Path) : Option Node :=
  if path = [] then some .directory else fs.entries.lookup path

def content (fs : Fs) (inode : Nat) : Bytes := fs.contents.getD inode []

/-- The file at a path. -/
def file (fs : Fs) (path : Path) : Option Bytes :=
  match fs.find path with
  | some (.file inode) => some (fs.content inode)
  | _ => none

@[simp] theorem find_nil (fs : Fs) : fs.find [] = some .directory := if_pos rfl

theorem find_of_ne {fs : Fs} {path : Path} (h : path ≠ []) : fs.find path = fs.entries.lookup path := if_neg h

theorem lt_of_find_eq_file {fs : Fs} {path : Path} {inode : Nat} (h : fs.find path = some (.file inode)) :
    inode < fs.contents.length := by
  have hne : path ≠ [] := by
    rintro rfl
    simp at h
  exact fs.inode_lt path inode (find_of_ne hne ▸ h)

/-- The entries of a directory exist only where the directory does. -/
theorem find_parent {fs : Fs} {path : Path} {name : Name} (h : (fs.find (path ++ [name])).isSome) :
    fs.find path = some .directory := by
  rw [find_of_ne (by simp), AList.lookup_isSome] at h
  obtain rfl | hdir := fs.closed path name h
  · rfl
  · rw [find]
    split
    · rfl
    · exact hdir

section Primitives

/-- Binds a path to a node. -/
def link (fs : Fs) (path : Path) (node : Node) (hpath : path ≠ [])
    (hparent : fs.find path.dropLast = some .directory) (hold : fs.find path ≠ some .directory)
    (hnode : ∀ inode, node = .file inode → inode < fs.contents.length) : Fs where
  entries := fs.entries.insert path node
  contents := fs.contents
  closed := by
    intro q name hmem
    obtain rfl | hmem := AList.mem_insert fs.entries |>.mp hmem
    · rw [List.dropLast_concat] at hparent
      by_cases hq : q = []
      · exact .inl hq
      · right
        rw [AList.lookup_insert_ne (by simp), ← find_of_ne hq]
        exact hparent
    · refine (fs.closed q name hmem).imp_right fun hdir => ?_
      have hne : q ≠ path := by
        rintro rfl
        exact hold (find_of_ne hpath ▸ hdir)
      rw [AList.lookup_insert_ne hne]
      exact hdir
  inode_lt := by
    intro q inode hlookup
    by_cases hq : q = path
    · subst hq
      rw [AList.lookup_insert] at hlookup
      exact hnode inode (Option.some.inj hlookup)
    · rw [AList.lookup_insert_ne hq] at hlookup
      exact fs.inode_lt q inode hlookup

/-- Removes a file's path. -/
def unlink (fs : Fs) (path : Path) (hpath : path ≠ []) (hold : fs.find path ≠ some .directory) : Fs where
  entries := fs.entries.erase path
  contents := fs.contents
  closed := by
    intro q name hmem
    refine (fs.closed q name (AList.mem_erase.mp hmem).2).imp_right fun hdir => ?_
    have hne : q ≠ path := by
      rintro rfl
      exact hold (find_of_ne hpath ▸ hdir)
    rw [AList.lookup_erase_ne hne]
    exact hdir
  inode_lt := by
    intro q inode hlookup
    by_cases hq : q = path
    · subst hq
      rw [AList.lookup_erase] at hlookup
      cases hlookup
    · rw [AList.lookup_erase_ne hq] at hlookup
      exact fs.inode_lt q inode hlookup

/-- A new file without a name. -/
def alloc (fs : Fs) : Fs where
  entries := fs.entries
  contents := fs.contents ++ [[]]
  closed := fs.closed
  inode_lt path inode h := by
    rw [List.length_append]
    exact Nat.lt_add_right _ (fs.inode_lt path inode h)

/-- Replaces the contents of a file. -/
def store (fs : Fs) (inode : Nat) (bytes : Bytes) : Fs where
  entries := fs.entries
  contents := fs.contents.set inode bytes
  closed := fs.closed
  inode_lt path inode h := by
    rw [List.length_set]
    exact fs.inode_lt path inode h

variable {fs : Fs}

theorem find_link {path q : Path} {node : Node} {hpath hparent hold hnode} :
    (fs.link path node hpath hparent hold hnode).find q = if q = path then some node else fs.find q := by
  unfold find link
  by_cases hq : q = path
  · subst hq
    rw [if_neg hpath, if_pos rfl]
    exact AList.lookup_insert _
  · rw [if_neg hq]
    congr 1
    exact AList.lookup_insert_ne hq

theorem find_unlink {path q : Path} {hpath hold} :
    (fs.unlink path hpath hold).find q = if q = path then none else fs.find q := by
  unfold find unlink
  by_cases hq : q = path
  · subst hq
    rw [if_neg hpath, if_pos rfl]
    exact AList.lookup_erase _ _
  · rw [if_neg hq]
    congr 1
    exact AList.lookup_erase_ne hq

@[simp] theorem find_alloc (path : Path) : fs.alloc.find path = fs.find path := rfl

@[simp] theorem find_store (path : Path) (inode : Nat) (bytes : Bytes) :
    (fs.store inode bytes).find path = fs.find path := rfl

@[simp] theorem content_link {path : Path} {node : Node} {hpath hparent hold hnode} (inode : Nat) :
    (fs.link path node hpath hparent hold hnode).content inode = fs.content inode := rfl

@[simp] theorem content_unlink {path : Path} {hpath hold} (inode : Nat) :
    (fs.unlink path hpath hold).content inode = fs.content inode := rfl

@[simp] theorem content_alloc (inode : Nat) : fs.alloc.content inode = fs.content inode := by
  simp only [content, alloc, List.getD_eq_getElem?_getD, List.getElem?_append]
  split
  · rfl
  · rename_i h
    rw [List.getElem?_eq_none (Nat.not_lt.mp h)]
    cases hindex : inode - fs.contents.length with
    | zero => rfl
    | succ n => simp

theorem content_store_self {inode : Nat} (h : inode < fs.contents.length) (bytes : Bytes) :
    (fs.store inode bytes).content inode = bytes := by
  simp [content, store, List.getD_eq_getElem?_getD, h]

theorem content_store_of_ne {inode other : Nat} (h : other ≠ inode) (bytes : Bytes) :
    (fs.store inode bytes).content other = fs.content other := by
  simp [content, store, List.getD_eq_getElem?_getD, List.getElem?_set_ne h.symm]

end Primitives

/-- The error of a path whose parent is no directory. -/
def walk_error (fs : Fs) (path : Path) : IoError :=
  match path.dropLast.inits.find? fun ancestor => fs.find ancestor ≠ some .directory with
  | some ancestor => if fs.find ancestor = none then .NotFound else .NotADirectory
  | none => .NotFound

theorem ne_nil_of_find_eq_none {fs : Fs} {path : Path} (h : fs.find path = none) : path ≠ [] := by
  rintro rfl
  simp at h

theorem ne_nil_of_find_eq_file {fs : Fs} {path : Path} {inode : Nat} (h : fs.find path = some (.file inode)) :
    path ≠ [] := by
  rintro rfl
  simp at h

/-- `mkdir(2)`. -/
def mkdir (fs : Fs) (path : Path) : Except IoError Fs :=
  if hparent : fs.find path.dropLast = some .directory then
    if h : fs.find path = none then
      .ok (fs.link path .directory (ne_nil_of_find_eq_none h) hparent (by simp [h]) (by simp))
    else .error .AlreadyExists
  else .error (fs.walk_error path)

/-- A new file at a path that names nothing. -/
def new_file (fs : Fs) (path : Path) (hparent : fs.find path.dropLast = some .directory)
    (h : fs.find path = none) : Fs :=
  fs.alloc.link path (.file fs.contents.length) (ne_nil_of_find_eq_none h) hparent (by simp [h])
    (by simp [alloc])

/-- `open(2)` with `O_WRONLY | O_CREAT | O_EXCL`, giving the file it made. -/
def create_new (fs : Fs) (path : Path) : Except IoError (Nat × Fs) :=
  if hparent : fs.find path.dropLast = some .directory then
    if h : fs.find path = none then .ok (fs.contents.length, fs.new_file path hparent h)
    else .error .AlreadyExists
  else .error (fs.walk_error path)

/-- `open(2)` with `O_WRONLY | O_CREAT | O_TRUNC`. -/
def create (fs : Fs) (path : Path) : Except IoError (Nat × Fs) :=
  if hparent : fs.find path.dropLast = some .directory then
    match h : fs.find path with
    | some .directory => .error .IsADirectory
    | some (.file inode) => .ok (inode, fs.store inode [])
    | none => .ok (fs.contents.length, fs.new_file path hparent h)
  else .error (fs.walk_error path)

/-- The contents with `bytes` at an offset; a gap is filled with zeros. -/
def write_at (old : Bytes) (offset : Nat) (bytes : Bytes) : Bytes :=
  old.take offset ++ List.replicate (offset - old.length) 0 ++ bytes ++ old.drop (offset + bytes.length)

/-- `write(2)` at the offset of an open file. -/
def write (fs : Fs) (inode offset : Nat) (bytes : Bytes) : Fs :=
  fs.store inode (write_at (fs.content inode) offset bytes)

/-- Reads a whole file. -/
def read (fs : Fs) (path : Path) : Except IoError Bytes :=
  if fs.find path.dropLast = some .directory then
    match fs.find path with
    | some .directory => .error .IsADirectory
    | some (.file inode) => .ok (fs.content inode)
    | none => .error .NotFound
  else .error (fs.walk_error path)

/-- The names in a directory. -/
def children (fs : Fs) (path : Path) : List Name :=
  fs.entries.keys.filterMap fun entry => if entry.dropLast = path then entry.getLast? else none

def read_dir (fs : Fs) (path : Path) : Except IoError (List Name) :=
  if fs.find path.dropLast = some .directory then
    match fs.find path with
    | some .directory => .ok (fs.children path)
    | some (.file _) => .error .NotADirectory
    | none => .error .NotFound
  else .error (fs.walk_error path)

/-- `rename(2)` of a file, replacing a file at the new path. Directories stay where they
are. -/
def rename (fs : Fs) (source target : Path) : Except IoError Fs :=
  if fs.find source.dropLast = some .directory then
    if hparent : fs.find target.dropLast = some .directory then
      match hsource : fs.find source with
      | none => .error .NotFound
      | some .directory => .error .Other
      | some (.file inode) =>
        if htarget : fs.find target = some .directory then .error .IsADirectory
        else if hsame : fs.find target = some (.file inode) then .ok fs
        else
          .ok ((fs.link target (.file inode)
            (by rintro rfl; simp at htarget) hparent htarget
            (by rintro _ ⟨rfl⟩; exact lt_of_find_eq_file hsource)).unlink source
              (ne_nil_of_find_eq_file hsource)
              (by
                rw [find_link]
                split
                · simp
                · simp [hsource]))
    else .error (fs.walk_error target)
  else .error (fs.walk_error source)

/-- `link(2)`: a second name for a file, at a path that names nothing. -/
def hard_link (fs : Fs) (source target : Path) : Except IoError Fs :=
  if fs.find source.dropLast = some .directory then
    if hparent : fs.find target.dropLast = some .directory then
      match hsource : fs.find source with
      | none => .error .NotFound
      | some .directory => .error .Other
      | some (.file inode) =>
        if htarget : fs.find target = none then
          .ok (fs.link target (.file inode) (ne_nil_of_find_eq_none htarget) hparent (by simp [htarget])
            (by rintro _ ⟨rfl⟩; exact lt_of_find_eq_file hsource))
        else .error .AlreadyExists
    else .error (fs.walk_error target)
  else .error (fs.walk_error source)

/-- `unlink(2)` of a file. -/
def remove_file (fs : Fs) (path : Path) : Except IoError Fs :=
  if fs.find path.dropLast = some .directory then
    match h : fs.find path with
    | none => .error .NotFound
    | some .directory => .error .IsADirectory
    | some (.file _) => .ok (fs.unlink path (ne_nil_of_find_eq_file h) (by simp [h]))
  else .error (fs.walk_error path)

section Results

variable {fs fs' : Fs} {path source target q : Path} {inode : Nat} {bytes : Bytes}

theorem content_eq_nil_of_le (h : fs.contents.length ≤ inode) : fs.content inode = [] := by
  rw [content, List.getD_eq_getElem?_getD, List.getElem?_eq_none h]
  rfl

theorem find_dropLast_of_isSome (hpath : path ≠ []) (h : (fs.find path).isSome) :
    fs.find path.dropLast = some .directory := by
  rw [← List.dropLast_append_getLast hpath] at h
  exact find_parent h

theorem file_eq_some_iff : fs.file path = some bytes ↔
    ∃ inode, fs.find path = some (.file inode) ∧ fs.content inode = bytes := by
  unfold file
  split
  next inode h => simp [h]
  next h =>
    constructor
    · intro h'
      cases h'
    · rintro ⟨inode, hfile, _⟩
      exact absurd hfile (h inode)

theorem read_eq_ok_iff : fs.read path = .ok bytes ↔ fs.file path = some bytes := by
  rw [file_eq_some_iff, read]
  constructor
  · intro h
    split at h
    · split at h
      next => cases h
      next inode hfile => exact ⟨inode, hfile, Except.ok.inj h⟩
      next => cases h
    · cases h
  · rintro ⟨inode, hfile, rfl⟩
    rw [if_pos (find_dropLast_of_isSome (ne_nil_of_find_eq_file hfile) (by simp [hfile])), hfile]

theorem mem_children_iff {name : Name} : name ∈ fs.children path ↔ (fs.find (path ++ [name])).isSome := by
  rw [find_of_ne (by simp), AList.lookup_isSome, AList.mem_keys, children, List.mem_filterMap]
  constructor
  · rintro ⟨entry, hentry, hname⟩
    split at hname
    next hpath =>
      obtain ⟨front, rfl⟩ := List.getLast?_eq_some_iff.mp hname
      rw [List.dropLast_concat] at hpath
      rw [← hpath]
      exact hentry
    next => cases hname
  · intro hentry
    exact ⟨_, hentry, by simp⟩

theorem nodup_children : (fs.children path).Nodup := by
  refine List.Nodup.filterMap ?_ fs.entries.keys_nodup
  intro a b name ha hb
  rw [Option.mem_def] at ha hb
  split at ha
  next hpath =>
    split at hb
    next hpath' =>
      obtain ⟨front, rfl⟩ := List.getLast?_eq_some_iff.mp ha
      obtain ⟨front', rfl⟩ := List.getLast?_eq_some_iff.mp hb
      rw [List.dropLast_concat] at hpath hpath'
      rw [hpath, hpath']
    next => cases hb
  next => cases ha

theorem read_dir_eq_ok_iff {names : List Name} (hpath : path ≠ []) :
    fs.read_dir path = .ok names ↔ fs.find path = some .directory ∧ names = fs.children path := by
  rw [read_dir]
  constructor
  · intro h
    split at h
    · split at h
      next hdir => exact ⟨hdir, (Except.ok.inj h).symm⟩
      next => cases h
      next => cases h
    · cases h
  · rintro ⟨hdir, rfl⟩
    rw [if_pos (find_dropLast_of_isSome hpath (by simp [hdir])), hdir]

/-- What `mkdir` does. -/
theorem mkdir_eq_ok (h : fs.mkdir path = .ok fs') :
    fs.find path.dropLast = some .directory ∧ fs.find path = none ∧
      (∀ q, fs'.find q = if q = path then some .directory else fs.find q) ∧ fs'.contents = fs.contents := by
  rw [mkdir] at h
  split at h
  next hparent =>
    split at h
    next hnone =>
      obtain rfl := Except.ok.inj h
      exact ⟨hparent, hnone, fun q => find_link, rfl⟩
    next => cases h
  next => cases h

theorem find_new_file {hparent : fs.find path.dropLast = some .directory} {h : fs.find path = none} :
    (fs.new_file path hparent h).find q = if q = path then some (.file fs.contents.length) else fs.find q :=
  find_link

theorem content_new_file {hparent : fs.find path.dropLast = some .directory} {h : fs.find path = none} :
    (fs.new_file path hparent h).content inode = fs.content inode := content_alloc inode

/-- What `create_new` does. -/
theorem create_new_eq_ok (h : fs.create_new path = .ok (inode, fs')) :
    fs.find path.dropLast = some .directory ∧ fs.find path = none ∧ inode = fs.contents.length ∧
      (∀ q, fs'.find q = if q = path then some (.file inode) else fs.find q) ∧
      (∀ i, fs'.content i = fs.content i) ∧ fs'.contents.length = fs.contents.length + 1 := by
  rw [create_new] at h
  split at h
  next hparent =>
    split at h
    next hnone =>
      obtain ⟨rfl, rfl⟩ := Prod.mk.inj (Except.ok.inj h)
      exact ⟨hparent, hnone, rfl, fun q => find_new_file, fun i => content_new_file, by simp [new_file, alloc, link]⟩
    next => cases h
  next => cases h

/-- What `create` does: the path names the file that it returns, emptied. -/
theorem create_eq_ok (h : fs.create path = .ok (inode, fs')) :
    fs.find path.dropLast = some .directory ∧
      (fs.find path = some (.file inode) ∧ fs'.contents.length = fs.contents.length ∨
        fs.find path = none ∧ inode = fs.contents.length ∧ fs'.contents.length = fs.contents.length + 1) ∧
      (∀ q, fs'.find q = if q = path then some (.file inode) else fs.find q) ∧
      fs'.content inode = [] ∧ ∀ i, i ≠ inode → fs'.content i = fs.content i := by
  rw [create] at h
  split at h
  next hparent =>
    split at h
    next => cases h
    next existing hfile =>
      obtain ⟨rfl, rfl⟩ := Prod.mk.inj (Except.ok.inj h)
      refine ⟨hparent, .inl ⟨hfile, List.length_set⟩, fun q => ?_, ?_, ?_⟩
      · rw [find_store]
        split
        next hq => rw [hq, hfile]
        next => rfl
      · exact content_store_self (lt_of_find_eq_file hfile) []
      · exact fun i hi => content_store_of_ne hi []
    next hnone =>
      obtain ⟨rfl, rfl⟩ := Prod.mk.inj (Except.ok.inj h)
      refine ⟨hparent, .inr ⟨hnone, rfl, ?_⟩, fun q => find_new_file, ?_, ?_⟩
      · simp [new_file, alloc, link]
      · rw [content_new_file]
        exact content_eq_nil_of_le le_rfl
      · exact fun i _ => content_new_file
  next => cases h

theorem length_contents_write {offset : Nat} : (fs.write inode offset bytes).contents.length = fs.contents.length :=
  List.length_set

theorem content_write_of_ne {offset other : Nat} (h : other ≠ inode) :
    (fs.write inode offset bytes).content other = fs.content other := content_store_of_ne h _

/-- Writing at the end appends. -/
theorem content_write_end {offset : Nat} (hinode : inode < fs.contents.length)
    (h : (fs.content inode).length = offset) :
    (fs.write inode offset bytes).content inode = fs.content inode ++ bytes := by
  rw [write, content_store_self hinode, write_at]
  subst h
  simp

/-- What `rename` does to a file. -/
theorem rename_eq_ok (h : fs.rename source target = .ok fs') :
    ∃ inode, fs.find source = some (.file inode) ∧ fs.find target ≠ some .directory ∧
      fs'.contents = fs.contents ∧
      (fs.find target = some (.file inode) ∧ fs' = fs ∨ fs.find target ≠ some (.file inode) ∧
        ∀ q, fs'.find q = if q = source then none else if q = target then some (.file inode) else fs.find q) := by
  rw [rename] at h
  split at h
  · split at h
    · split at h
      next => cases h
      next => cases h
      next inode hsource =>
        split at h
        next => cases h
        next htarget =>
          split at h
          next hsame =>
            obtain rfl := Except.ok.inj h
            exact ⟨inode, hsource, htarget, rfl, .inl ⟨hsame, rfl⟩⟩
          next hsame =>
            obtain rfl := Except.ok.inj h
            refine ⟨inode, hsource, htarget, rfl, .inr ⟨hsame, fun q => ?_⟩⟩
            rw [find_unlink, find_link]
    · cases h
  · cases h

/-- What `hard_link` does. -/
theorem hard_link_eq_ok (h : fs.hard_link source target = .ok fs') :
    ∃ inode, fs.find source = some (.file inode) ∧ fs.find target = none ∧ fs'.contents = fs.contents ∧
      ∀ q, fs'.find q = if q = target then some (.file inode) else fs.find q := by
  rw [hard_link] at h
  split at h
  · split at h
    · split at h
      next => cases h
      next => cases h
      next inode hsource =>
        split at h
        next htarget =>
          obtain rfl := Except.ok.inj h
          exact ⟨inode, hsource, htarget, rfl, fun q => find_link⟩
        next => cases h
    · cases h
  · cases h

/-- What `remove_file` does. -/
theorem remove_file_eq_ok (h : fs.remove_file path = .ok fs') :
    fs'.contents = fs.contents ∧ ∀ q, fs'.find q = if q = path then none else fs.find q := by
  rw [remove_file] at h
  split at h
  · split at h
    next => cases h
    next => cases h
    next =>
      obtain rfl := Except.ok.inj h
      exact ⟨rfl, fun q => find_unlink⟩
  · cases h

theorem exists_create_new_eq_ok (hparent : fs.find path.dropLast = some .directory) (h : fs.find path = none) :
    ∃ made, fs.create_new path = .ok made := by
  rw [create_new, dif_pos hparent, dif_pos h]
  exact ⟨_, rfl⟩

theorem exists_create_eq_ok (hparent : fs.find path.dropLast = some .directory)
    (h : fs.find path ≠ some .directory) : ∃ made, fs.create path = .ok made := by
  rw [create, dif_pos hparent]
  split
  next hdir => exact absurd hdir h
  next => exact ⟨_, rfl⟩
  next => exact ⟨_, rfl⟩

theorem exists_rename_eq_ok (hsource : fs.find source = some (.file inode))
    (hparent : fs.find target.dropLast = some .directory) (htarget : fs.find target ≠ some .directory) :
    ∃ fs', fs.rename source target = .ok fs' := by
  rw [rename, if_pos (find_dropLast_of_isSome (ne_nil_of_find_eq_file hsource) (by simp [hsource])), dif_pos hparent]
  split
  next hnone => rw [hsource] at hnone; cases hnone
  next hdir => rw [hsource] at hdir; cases hdir
  next =>
    rw [dif_neg htarget]
    split
    · exact ⟨_, rfl⟩
    · exact ⟨_, rfl⟩

theorem exists_remove_file_eq_ok (h : fs.find path = some (.file inode)) : ∃ fs', fs.remove_file path = .ok fs' := by
  rw [remove_file, if_pos (find_dropLast_of_isSome (ne_nil_of_find_eq_file h) (by simp [h]))]
  split
  next hnone => rw [h] at hnone; cases hnone
  next hdir => rw [h] at hdir; cases hdir
  next => exact ⟨_, rfl⟩

theorem content_of_contents_eq (h : fs'.contents = fs.contents) : fs'.content inode = fs.content inode := by
  rw [content, content, h]

end Results

section NoHardLinks

/-- No file under a directory has another name. -/
def NoHardLinks (fs : Fs) (dir : Path) : Prop :=
  ∀ p q inode, dir <+: p → fs.find p = some (.file inode) → fs.find q = some (.file inode) → p = q

variable {fs fs' : Fs} {dir path source target : Path} {inode : Nat}

/-- Binding a path to a file that has no other name keeps every file's name unique. -/
theorem NoHardLinks.of_find {node : Node} (h : fs.NoHardLinks dir)
    (hfind : ∀ q, fs'.find q = if q = path then some node else fs.find q)
    (hnew : ∀ inode, node = .file inode → (∀ q, fs.find q = some (.file inode) → q = path) ∨
      fs.find path = some node) : fs'.NoHardLinks dir := by
  have hcase : (∀ inode, node = .file inode → ∀ q, fs.find q = some (.file inode) → q = path) ∨
      ∀ q, fs'.find q = fs.find q := by
    by_cases hsame : fs.find path = some node
    · refine .inr fun q => ?_
      rw [hfind]
      split
      next hq => rw [hq, hsame]
      next => rfl
    · exact .inl fun inode hnode => (hnew inode hnode).resolve_right hsame
  intro p q inode hdir hp hq
  obtain hnew | hsame := hcase
  · rw [hfind] at hp hq
    split at hp
    next hpath =>
      split at hq
      next hpath' => rw [hpath, hpath']
      next => rw [hpath, hnew inode (Option.some.inj hp) q hq]
    next =>
      split at hq
      next hpath' => rw [hpath', hnew inode (Option.some.inj hq) p hp]
      next => exact h p q inode hdir hp hq
  · rw [hsame] at hp hq
    exact h p q inode hdir hp hq

theorem NoHardLinks.mkdir (h : fs.NoHardLinks dir) (hmkdir : fs.mkdir path = .ok fs') : fs'.NoHardLinks dir :=
  h.of_find (mkdir_eq_ok hmkdir).2.2.1 fun _ hnode => by cases hnode

theorem NoHardLinks.create_new (h : fs.NoHardLinks dir) (hcreate : fs.create_new path = .ok (inode, fs')) :
    fs'.NoHardLinks dir := by
  obtain ⟨_, _, rfl, hfind, _⟩ := create_new_eq_ok hcreate
  refine h.of_find hfind fun i hi => .inl fun q hq => ?_
  obtain rfl := Node.file.inj hi
  exact absurd (lt_of_find_eq_file hq) (lt_irrefl _)

theorem NoHardLinks.create (h : fs.NoHardLinks dir) (hcreate : fs.create path = .ok (inode, fs')) :
    fs'.NoHardLinks dir := by
  obtain ⟨_, hcase, hfind, _⟩ := create_eq_ok hcreate
  refine h.of_find hfind fun i hi => ?_
  obtain rfl := Node.file.inj hi
  obtain ⟨hfile, _⟩ | ⟨_, rfl, _⟩ := hcase
  · exact .inr hfile
  · exact .inl fun q hq => absurd (lt_of_find_eq_file hq) (lt_irrefl _)

theorem NoHardLinks.rename (h : fs.NoHardLinks dir) (hdir : dir <+: source)
    (hrename : fs.rename source target = .ok fs') : fs'.NoHardLinks dir := by
  obtain ⟨inode, hsource, _, _, ⟨_, rfl⟩ | ⟨_, hfind⟩⟩ := rename_eq_ok hrename
  · exact h
  · intro p q i hp' hp hq
    rw [hfind] at hp hq
    split at hp
    · cases hp
    next hpSource =>
      split at hq
      · cases hq
      next hqSource =>
        split at hp
        next hpTarget =>
          obtain rfl := Node.file.inj (Option.some.inj hp)
          split at hq
          next hqTarget => rw [hpTarget, hqTarget]
          next => exact absurd (h source q _ hdir hsource hq).symm hqSource
        next =>
          split at hq
          next hqTarget =>
            obtain rfl := Node.file.inj (Option.some.inj hq)
            exact absurd (h source p _ hdir hsource hp).symm hpSource
          next => exact h p q i hp' hp hq

end NoHardLinks

section View

/-- The file system as what stands at its paths. -/
def view (fs : Fs) (path : Path) : Option Entry :=
  (fs.find path).map fun node => match node with
    | .directory => .directory
    | .file inode => .file (fs.content inode)

variable {fs fs' : Fs} {dir path source target q : Path} {inode : Nat} {bytes : Bytes}

theorem view_eq_none_iff : fs.view path = none ↔ fs.find path = none := Option.map_eq_none_iff

theorem view_eq_directory_iff : fs.view path = some .directory ↔ fs.find path = some .directory := by
  rw [view, Option.map_eq_some_iff]
  constructor
  · rintro ⟨node, hnode, hentry⟩
    cases node with
    | directory => exact hnode
    | file inode => cases hentry
  · exact fun hnode => ⟨_, hnode, rfl⟩

theorem view_eq_file_iff : fs.view path = some (.file bytes) ↔ fs.file path = some bytes := by
  rw [file_eq_some_iff, view, Option.map_eq_some_iff]
  constructor
  · rintro ⟨node, hnode, hentry⟩
    cases node with
    | directory => cases hentry
    | file inode => exact ⟨inode, hnode, Entry.file.inj hentry⟩
  · rintro ⟨inode, hnode, rfl⟩
    exact ⟨_, hnode, rfl⟩

theorem view_of_find_file (h : fs.find path = some (.file inode)) : fs.view path = some (.file (fs.content inode)) := by
  rw [view, h]
  rfl

theorem isSome_find_iff : (fs.find path).isSome ↔ (fs.view path).isSome := by
  rw [view, Option.isSome_map]

/-- A path is seen as before when it names the same node with the same contents. -/
theorem view_congr (hfind : fs'.find q = fs.find q)
    (hcontent : ∀ inode, fs.find q = some (.file inode) → fs'.content inode = fs.content inode) :
    fs'.view q = fs.view q := by
  rw [view, view, hfind]
  cases hnode : fs.find q with
  | none => rfl
  | some node =>
    cases node with
    | directory => rfl
    | file inode => simp [hcontent inode hnode]

theorem view_mkdir (h : fs.mkdir path = .ok fs') :
    fs.view path = none ∧ fs'.view = Function.update fs.view path (some .directory) := by
  obtain ⟨_, hnone, hfind, hcontents⟩ := mkdir_eq_ok h
  refine ⟨view_eq_none_iff.mpr hnone, funext fun q => ?_⟩
  by_cases hq : q = path
  · subst hq
    rw [Function.update_self, view, hfind, if_pos rfl]
    rfl
  · rw [Function.update_of_ne hq]
    exact view_congr (by rw [hfind, if_neg hq]) fun inode _ => content_of_contents_eq hcontents

theorem view_create_new (h : fs.create_new path = .ok (inode, fs')) :
    fs.view path = none ∧ fs'.view = Function.update fs.view path (some (.file [])) ∧
      fs'.find path = some (.file inode) := by
  obtain ⟨_, hnone, rfl, hfind, hcontent, _⟩ := create_new_eq_ok h
  have hpath : fs'.find path = some (.file fs.contents.length) := by rw [hfind, if_pos rfl]
  refine ⟨view_eq_none_iff.mpr hnone, funext fun q => ?_, hpath⟩
  by_cases hq : q = path
  · subst hq
    rw [Function.update_self, view_of_find_file hpath, hcontent, content_eq_nil_of_le le_rfl]
  · rw [Function.update_of_ne hq]
    exact view_congr (by rw [hfind, if_neg hq]) fun i _ => hcontent i

theorem view_create (hlinks : fs.NoHardLinks dir) (hdir : dir <+: path) (h : fs.create path = .ok (inode, fs')) :
    fs'.view = Function.update fs.view path (some (.file [])) ∧ fs'.find path = some (.file inode) := by
  obtain ⟨_, hcase, hfind, hempty, hcontent⟩ := create_eq_ok h
  have hpath : fs'.find path = some (.file inode) := by rw [hfind, if_pos rfl]
  refine ⟨funext fun q => ?_, hpath⟩
  by_cases hq : q = path
  · subst hq
    rw [Function.update_self, view_of_find_file hpath, hempty]
  · rw [Function.update_of_ne hq]
    refine view_congr (by rw [hfind, if_neg hq]) fun i hi => hcontent i ?_
    rintro rfl
    obtain ⟨hfile, _⟩ | ⟨_, rfl, _⟩ := hcase
    · exact hq (hlinks path q i hdir hfile hi).symm
    · exact absurd (lt_of_find_eq_file hi) (lt_irrefl _)

/-- Writing at the end of a file that no other path names. -/
theorem view_write {old : Bytes} (hlinks : fs.NoHardLinks dir) (hdir : dir <+: path)
    (hpath : fs.find path = some (.file inode)) (hold : fs.view path = some (.file old)) :
    (fs.write inode old.length bytes).view = Function.update fs.view path (some (.file (old ++ bytes))) := by
  rw [view_of_find_file hpath] at hold
  have hcontent : fs.content inode = old := Entry.file.inj (Option.some.inj hold)
  funext q
  by_cases hq : q = path
  · subst hq
    rw [Function.update_self, view_of_find_file (show (fs.write inode old.length bytes).find q = _ from hpath),
      content_write_end (lt_of_find_eq_file hpath) (by rw [hcontent]), hcontent]
  · rw [Function.update_of_ne hq]
    refine view_congr rfl fun i hi => content_write_of_ne ?_
    rintro rfl
    exact hq (hlinks path q i hdir hpath hi).symm

theorem view_rename (hlinks : fs.NoHardLinks dir) (hdir : dir <+: source) (hne : source ≠ target)
    (h : fs.rename source target = .ok fs') :
    fs'.view = Function.update (Function.update fs.view target (fs.view source)) source none := by
  obtain ⟨inode, hsource, _, hcontents, ⟨hsame, _⟩ | ⟨_, hfind⟩⟩ := rename_eq_ok h
  · exact absurd (hlinks source target inode hdir hsource hsame) hne
  · funext q
    by_cases hq : q = source
    · subst hq
      rw [Function.update_self, view_eq_none_iff, hfind, if_pos rfl]
    · rw [Function.update_of_ne hq]
      by_cases hqTarget : q = target
      · subst hqTarget
        have hfile : fs'.find q = some (.file inode) := by rw [hfind, if_neg hq, if_pos rfl]
        rw [Function.update_self, view_of_find_file hfile, view_of_find_file hsource,
          content_of_contents_eq hcontents]
      · rw [Function.update_of_ne hqTarget]
        exact view_congr (by rw [hfind, if_neg hq, if_neg hqTarget]) fun i _ => content_of_contents_eq hcontents

end View

end Fs

end posix
