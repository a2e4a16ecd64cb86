import Lys.Effect.System
import Lys.Posix.FileSystem

open rust effect

namespace posix

/-- The calls of a process, each one step. `record` is no call: it notes an event of the
process for the reader of the trace. -/
inductive Op (Event : Type) where
  | path_exists (path : Path)
  | is_file (path : Path)
  | is_dir (path : Path)
  | read (path : Path)
  | read_dir (path : Path)
  | mkdir (path : Path)
  | create_new (path : Path)
  | create (path : Path)
  | write (inode offset : Nat) (bytes : Bytes)
  | rename (source target : Path)
  | hard_link (source target : Path)
  | remove_file (path : Path)
  | set_permissions (path : Path)
  | record (event : Event)
deriving DecidableEq

/-- A listing may break off with an error. -/
abbrev Listing := List (Except IoError Name)

abbrev Op.Reply {Event : Type} : Op Event → Type
  | .path_exists _ | .is_file _ | .is_dir _ => Bool
  | .read _ => Except IoError Bytes
  | .read_dir _ => Except IoError Listing
  | .create_new _ | .create _ | .write _ _ _ => Except IoError Nat
  | .mkdir _ | .rename _ _ | .hard_link _ _ | .remove_file _ | .set_permissions _ => Except IoError Unit
  | .record _ => Unit

/-- What the system settles: whether a call proceeds or fails, how much a write stores, and
in which order a directory is listed, or after which names its listing breaks off. -/
inductive Choice where
  | proceed
  | fault
  | stores (count : Nat)
  | lists (names : List Name)
  | cut (names : List Name)
deriving DecidableEq

/-- The file system and the calls that changed it, the last one first. -/
structure World (Who Event : Type) where
  fs : Fs
  trace : List (Who × Op Event)

variable {Who Event : Type}

/-- A successful change enters the trace; a failed one changes nothing. -/
def World.change {α : Type} (w : World Who Event) (who : Who) (op : Op Event) :
    Except IoError (α × Fs) → Except IoError α × World Who Event
  | .ok (a, fs) => (.ok a, ⟨fs, (who, op) :: w.trace⟩)
  | .error e => (.error e, w)

/-- A change that proceeds or fails. -/
def World.attempt {α : Type} (w : World Who Event) (who : Who) (op : Op Event)
    (result : Except IoError (α × Fs)) : Choice → Option (Except IoError α × World Who Event)
  | .proceed => some (w.change who op result)
  | .fault => some (.error .Other, w)
  | _ => none

/-- A question that is answered with "no" when it fails. -/
def World.ask (w : World Who Event) (answer : Bool) : Choice → Option (Bool × World Who Event)
  | .proceed => some (answer, w)
  | .fault => some (false, w)
  | _ => none

local instance : LawfulBEq Name := inferInstance

def World.list (w : World Who Event) (names : Except IoError (List Name)) (choice : Choice) :
    Option (Except IoError Listing × World Who Event) :=
  match names, choice with
  | _, .fault => some (.error .Other, w)
  | .error e, .proceed => some (.error e, w)
  | .ok names, .lists listed => if listed.Perm names then some (.ok (listed.map .ok), w) else none
  | .ok names, .cut listed =>
    if listed.Subperm names then some (.ok (listed.map .ok ++ [.error .Other]), w) else none
  | _, _ => none

/-- `write(2)` stores some of the bytes and says how many. -/
def World.write (w : World Who Event) (who : Who) (inode offset : Nat) (bytes : Bytes) :
    Choice → Option (Except IoError Nat × World Who Event)
  | .stores count =>
    if 0 < count ∧ count ≤ bytes.length then
      some (.ok count, ⟨w.fs.write inode offset (bytes.take count), (who, .write inode offset bytes) :: w.trace⟩)
    else none
  | .fault => some (.error .Other, w)
  | _ => none

def apply (who : Who) : (op : Op Event) → Choice → World Who Event → Option (op.Reply × World Who Event)
  | .path_exists path, choice, w => w.ask (w.fs.find path).isSome choice
  | .is_file path, choice, w => w.ask (w.fs.file path).isSome choice
  | .is_dir path, choice, w => w.ask (w.fs.find path = some .directory) choice
  | .read path, choice, w =>
    match choice with
    | .proceed => some (w.fs.read path, w)
    | .fault => some (.error .Other, w)
    | _ => none
  | .read_dir path, choice, w => w.list (w.fs.read_dir path) choice
  | .mkdir path, choice, w => w.attempt who (.mkdir path) ((w.fs.mkdir path).map fun fs => ((), fs)) choice
  | .create_new path, choice, w => w.attempt who (.create_new path) (w.fs.create_new path) choice
  | .create path, choice, w => w.attempt who (.create path) (w.fs.create path) choice
  | .write inode offset bytes, choice, w => w.write who inode offset bytes choice
  | .rename source target, choice, w =>
    w.attempt who (.rename source target) ((w.fs.rename source target).map fun fs => ((), fs)) choice
  | .hard_link source target, choice, w =>
    w.attempt who (.hard_link source target) ((w.fs.hard_link source target).map fun fs => ((), fs)) choice
  | .remove_file path, choice, w =>
    w.attempt who (.remove_file path) ((w.fs.remove_file path).map fun fs => ((), fs)) choice
  | .set_permissions path, choice, w =>
    w.attempt who (.set_permissions path) (if (w.fs.find path).isSome then .ok ((), w.fs) else .error .NotFound) choice
  | .record event, _, w => some ((), ⟨w.fs, (who, .record event) :: w.trace⟩)

/-- Processes on a file system. -/
abbrev Calls (Who Event : Type) : Interface where
  Who := Who
  State := World Who Event
  Choice := Choice
  Op := Op Event
  Reply := Op.Reply
  apply := apply

/-- One call, returning its reply. -/
def call {ε : Type} (op : Op Event) : Prog (Calls Who Event) ε op.Reply := Prog.perform (I := Calls Who Event) op

section Inversion

variable {w w' : World Who Event} {who : Who} {choice : Choice} {α : Type} {op : Op Event}

/-- A question leaves the world as it is. -/
theorem World.ask_eq_some {answer reply : Bool} (h : w.ask answer choice = some (reply, w')) :
    w' = w ∧ (reply = true → answer = true) ∧ (choice ≠ .fault → reply = answer) := by
  cases choice with
  | proceed =>
    obtain ⟨rfl, rfl⟩ := Prod.mk.inj (Option.some.inj h)
    exact ⟨rfl, id, fun _ => rfl⟩
  | fault =>
    obtain ⟨rfl, rfl⟩ := Prod.mk.inj (Option.some.inj h)
    exact ⟨rfl, by simp, by simp⟩
  | stores => cases h
  | lists => cases h
  | cut => cases h

/-- A change fails and leaves the world as it is, or proceeds. -/
theorem World.attempt_eq_some {result : Except IoError (α × Fs)} {reply : Except IoError α}
    (h : w.attempt who op result choice = some (reply, w')) :
    (∃ e, reply = .error e ∧ w' = w ∧ (choice ≠ .fault → result = .error e)) ∨
      ∃ a fs, result = .ok (a, fs) ∧ reply = .ok a ∧ w' = ⟨fs, (who, op) :: w.trace⟩ := by
  cases choice with
  | proceed =>
    cases result with
    | error e =>
      obtain ⟨rfl, rfl⟩ := Prod.mk.inj (Option.some.inj h)
      exact .inl ⟨e, rfl, rfl, fun _ => rfl⟩
    | ok pair =>
      obtain ⟨rfl, rfl⟩ := Prod.mk.inj (Option.some.inj h)
      exact .inr ⟨pair.1, pair.2, rfl, rfl, rfl⟩
  | fault =>
    obtain ⟨rfl, rfl⟩ := Prod.mk.inj (Option.some.inj h)
    exact .inl ⟨_, rfl, rfl, fun h => absurd rfl h⟩
  | stores => cases h
  | lists => cases h
  | cut => cases h

/-- A listing has every name of the directory, or breaks off. -/
theorem World.list_eq_some {names : Except IoError (List Name)} {reply : Except IoError Listing}
    (h : w.list names choice = some (reply, w')) :
    w' = w ∧ ((∃ e, reply = .error e ∧ (choice ≠ .fault → names = .error e)) ∨
      (∃ present listed : List Name, names = .ok present ∧ reply = .ok (listed.map .ok) ∧ listed.Perm present) ∨
      ∃ listed : List Name, choice = .cut listed ∧ reply = .ok (listed.map .ok ++ [.error .Other])) := by
  cases choice with
  | fault =>
    obtain ⟨rfl, rfl⟩ := Prod.mk.inj (Option.some.inj h)
    exact ⟨rfl, .inl ⟨_, rfl, fun h => absurd rfl h⟩⟩
  | proceed =>
    cases names with
    | error e =>
      obtain ⟨rfl, rfl⟩ := Prod.mk.inj (Option.some.inj h)
      exact ⟨rfl, .inl ⟨_, rfl, fun _ => rfl⟩⟩
    | ok present => cases h
  | lists listed =>
    cases names with
    | error e => cases h
    | ok present =>
      rw [World.list] at h
      split at h
      next hperm =>
        obtain ⟨rfl, rfl⟩ := Prod.mk.inj (Option.some.inj h)
        exact ⟨rfl, .inr (.inl ⟨_, _, rfl, rfl, hperm⟩)⟩
      next => cases h
  | cut listed =>
    cases names with
    | error e => cases h
    | ok present =>
      rw [World.list] at h
      split at h
      next =>
        obtain ⟨rfl, rfl⟩ := Prod.mk.inj (Option.some.inj h)
        exact ⟨rfl, .inr (.inr ⟨_, rfl, rfl⟩)⟩
      next => cases h
  | stores => cases names <;> cases h

/-- A write fails and leaves the world as it is, or stores a non-empty part. -/
theorem World.write_eq_some {inode offset : Nat} {bytes : Bytes} {reply : Except IoError Nat}
    (h : w.write who inode offset bytes choice = some (reply, w')) :
    (∃ e, reply = .error e ∧ w' = w ∧ choice = .fault) ∨
      ∃ count, choice = .stores count ∧ 0 < count ∧ count ≤ bytes.length ∧ reply = .ok count ∧
        w' = ⟨w.fs.write inode offset (bytes.take count), (who, .write inode offset bytes) :: w.trace⟩ := by
  cases choice with
  | stores count =>
    rw [World.write] at h
    split at h
    next hcount =>
      obtain ⟨rfl, rfl⟩ := Prod.mk.inj (Option.some.inj h)
      exact .inr ⟨count, rfl, hcount.1, hcount.2, rfl, rfl⟩
    next => cases h
  | fault =>
    obtain ⟨rfl, rfl⟩ := Prod.mk.inj (Option.some.inj h)
    exact .inl ⟨_, rfl, rfl, rfl⟩
  | proceed => cases h
  | lists => cases h
  | cut => cases h

end Inversion

end posix

namespace rust.fs

open posix

variable {Who Event : Type}

/-- `std::fs::read`. -/
def read (path : Path) : Prog (Calls Who Event) IoError Bytes := do
  Prog.of_except (← call (.read path))

/-- `File::write_all` from an offset. -/
def write_all (inode : Nat) : Nat → Nat → Bytes → Prog (Calls Who Event) IoError Unit
  | _, _, [] => pure ()
  | 0, _, _ :: _ => .fail .WriteZero
  | fuel + 1, offset, byte :: bytes => do
    let count ← Prog.of_except (← call (.write inode offset (byte :: bytes)))
    write_all inode fuel (offset + count) ((byte :: bytes).drop count)

/-- `std::fs::write`. -/
def write (path : Path) (contents : Bytes) : Prog (Calls Who Event) IoError Unit := do
  let inode ← Prog.of_except (← call (.create path))
  write_all inode contents.length 0 contents

/-- `std::fs::rename`. -/
def rename (source target : Path) : Prog (Calls Who Event) IoError Unit := do
  Prog.of_except (← call (.rename source target))

/-- `std::fs::remove_file`. -/
def remove_file (path : Path) : Prog (Calls Who Event) IoError Unit := do
  Prog.of_except (← call (.remove_file path))

/-- `std::fs::create_dir_all` of a path given from its last component. -/
def create_dir_all_reversed : Path → Prog (Calls Who Event) IoError Unit
  | [] => pure ()
  | name :: parents => do
    let path := (name :: parents).reverse
    match ← call (.mkdir path) with
    | .ok () => pure ()
    | .error .NotFound =>
      create_dir_all_reversed parents
      match ← call (.mkdir path) with
      | .ok () => pure ()
      | .error e => if ← call (.is_dir path) then pure () else .fail e
    | .error e => if ← call (.is_dir path) then pure () else .fail e

def create_dir_all (path : Path) : Prog (Calls Who Event) IoError Unit := create_dir_all_reversed path.reverse

end rust.fs
