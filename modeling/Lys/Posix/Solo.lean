import Lys.Posix.Rules
import Lys.RustStd.Result

open rust effect posix Fs

namespace posix

variable {Who Event ε α : Type} {who : Who}

/-- The events recorded, the last one first. -/
def World.events (w : World Who Event) : List (Who × Event) :=
  w.trace.filterMap fun entry => match entry with
    | (who, .record event) => some (who, event)
    | _ => none

/-- What stands at the paths of a world and the events of its trace. No file under `dir`
has two names. -/
structure Seen (dir : Path) (v : Path → Option Entry) (events : List (Who × Event)) (w : World Who Event) : Prop where
  links : w.fs.NoHardLinks dir
  view : w.fs.view = v
  events : w.events = events

variable {inv : World Who Event → Prop} {faultless : Bool} {dir path source target : Path}
  {v : Path → Option Entry} {events : List (Who × Event)} {w : World Who Event}

theorem Seen.find_eq_directory_iff (h : Seen dir v events w) {q : Path} :
    w.fs.find q = some .directory ↔ v q = some .directory := by
  rw [← h.view, view_eq_directory_iff]

theorem Seen.file_eq_some_iff (h : Seen dir v events w) {q : Path} {bytes : Bytes} :
    w.fs.file q = some bytes ↔ v q = some (.file bytes) := by
  rw [← h.view, view_eq_file_iff]

theorem Seen.find_eq_none_iff (h : Seen dir v events w) {q : Path} : w.fs.find q = none ↔ v q = none := by
  rw [← h.view, view_eq_none_iff]

theorem Seen.refl (hlinks : w.fs.NoHardLinks dir) : Seen dir w.fs.view w.events w := ⟨hlinks, rfl, rfl⟩

/-- Above an entry stand directories. -/
theorem Seen.parent (h : Seen dir v events w) {q : Path} (hq : q ≠ []) (hsome : v q ≠ none) :
    v q.dropLast = some .directory := by
  rw [← h.find_eq_directory_iff]
  refine find_dropLast_of_isSome hq ?_
  rw [Option.isSome_iff_ne_none, ne_eq, h.find_eq_none_iff]
  exact hsome

section Files

variable {contents : Bytes} {bytes : Bytes} {inode : Nat}

/-- A file in the course of being written. -/
structure Filling (dir : Path) (v : Path → Option Entry) (events : List (Who × Event)) (path : Path) (inode : Nat)
    (bytes : Bytes) (w : World Who Event) : Prop where
  seen : Seen dir (Function.update v path (some (.file bytes))) events w
  find : w.fs.find path = some (.file inode)

theorem Filling.stored (who : Who) (h : Filling dir v events path inode (contents.take k) w) (hdir : dir <+: path) {count : Nat}
    (hle : k + count ≤ contents.length) :
    Filling dir v events path inode (contents.take (k + count)) (w.stored who inode k contents count) := by
  have hview : w.fs.view path = some (.file (contents.take k)) := by rw [h.seen.view, Function.update_self]
  have hlength : (contents.take k).length = k := by
    rw [List.length_take]
    omega
  have hwrite : (w.fs.write inode (contents.take k).length ((contents.drop k).take count)).view = _ :=
    view_write h.seen.links hdir h.find hview
  rw [hlength, h.seen.view, Function.update_idem, ← List.take_add] at hwrite
  exact ⟨⟨h.seen.links, hwrite, h.seen.events⟩, h.find⟩

theorem Filling.writes (hdir : dir <+: path) {Q : World Who Event → Prop}
    (hinv : ∀ k w, k ≤ contents.length → Filling dir v events path inode (contents.take k) w → inv w)
    (hfails : faultless = false → ∀ k w, k < contents.length → Filling dir v events path inode (contents.take k) w → Q w) :
    Writes who (solo inv faultless) inode contents
      (fun k w => k ≤ contents.length ∧ Filling dir v events path inode (contents.take k) w) Q :=
  Writes.solo
    (fun k count _ hw _ _ hle =>
      have hstored := hw.2.stored who hdir hle
      ⟨hinv (k + count) _ hle hstored, hle, hstored⟩)
    (fun hfault k hk w hw _ => hfails hfault k w hk hw.2)

/-- Why a file could not be created. -/
def Obstructed (v : Path → Option Entry) (path : Path) : Prop :=
  v path = some .directory ∨ v path.dropLast ≠ some .directory

theorem Seen.create (hdir : dir <+: path)
    (hinv : ∀ inode w, Filling dir v events path inode [] w → inv w) :
    Step who (solo inv faultless) (Seen dir v events) (.create path)
      (Replied (Filling dir v events path · []) fun _ w =>
        Seen dir v events w ∧ (faultless = true → Obstructed v path)) := by
  refine Step.solo (by simp) fun w choice r w' hw hinvw hallowed happly => ?_
  obtain ⟨e, rfl, rfl, herror⟩ | ⟨inode, fs, hcreate, rfl, rfl⟩ := World.attempt_eq_some happly
  · refine ⟨hinvw, hw, fun hfaultless => ?_⟩
    have hfailed := herror (by rintro rfl; cases hallowed hfaultless)
    by_contra hclear
    rw [Obstructed, not_or, not_not, ← hw.find_eq_directory_iff, ← hw.find_eq_directory_iff] at hclear
    obtain ⟨made, hmade⟩ := exists_create_eq_ok hclear.2 hclear.1
    rw [hmade] at hfailed
    cases hfailed
  · obtain ⟨hview, hfind⟩ := view_create hw.links hdir hcreate
    have hfilling : Filling dir v events path inode [] (⟨fs, (who, .create path) :: w.trace⟩ : World Who Event) :=
      ⟨⟨hw.links.create hcreate, by rw [hview, hw.view], hw.events⟩, hfind⟩
    exact ⟨hinv inode _ hfilling, hfilling⟩

theorem Seen.create_new
    (hinv : ∀ inode w, v path = none → Filling dir v events path inode [] w → inv w) :
    Step who (solo inv faultless) (Seen dir v events) (.create_new path)
      (Replied (fun inode w => v path = none ∧ Filling dir v events path inode [] w) fun _ w =>
        Seen dir v events w ∧ (faultless = true → v path ≠ none ∨ v path.dropLast ≠ some .directory)) := by
  refine Step.solo (by simp) fun w choice r w' hw hinvw hallowed happly => ?_
  obtain ⟨e, rfl, rfl, herror⟩ | ⟨inode, fs, hcreate, rfl, rfl⟩ := World.attempt_eq_some happly
  · refine ⟨hinvw, hw, fun hfaultless => ?_⟩
    have hfailed := herror (by rintro rfl; cases hallowed hfaultless)
    by_contra hclear
    rw [not_or, not_not, not_not, ← hw.find_eq_directory_iff, ← hw.find_eq_none_iff] at hclear
    obtain ⟨made, hmade⟩ := exists_create_new_eq_ok hclear.2 hclear.1
    rw [hmade] at hfailed
    cases hfailed
  · obtain ⟨hnone, hview, hfind⟩ := view_create_new hcreate
    rw [hw.view] at hnone hview
    have hfilling : Filling dir v events path inode [] (⟨fs, (who, .create_new path) :: w.trace⟩ : World Who Event) :=
      ⟨⟨hw.links.create_new hcreate, hview, hw.events⟩, hfind⟩
    exact ⟨hinv inode _ hnone hfilling, hnone, hfilling⟩

theorem Seen.rename {A : World Who Event → Prop} (hA : ∀ w, A w → Seen dir v events w) (hdir : dir <+: source)
    (hne : source ≠ target) (hsource : v source = some (.file bytes))
    (hinv : ∀ w, Seen dir (Function.update (Function.update v target (some (.file bytes))) source none) events w → inv w) :
    Step who (solo inv faultless) A (.rename source target)
      (Replied (fun _ => Seen dir (Function.update (Function.update v target (some (.file bytes))) source none) events)
        fun _ w => Seen dir v events w ∧ (faultless = true → Obstructed v target)) := by
  refine Step.solo (by simp) fun w choice r w' hwA hinvw hallowed happly => ?_
  have hw := hA w hwA
  obtain ⟨e, rfl, rfl, herror⟩ | ⟨_, fs, hrename, rfl, rfl⟩ := World.attempt_eq_some happly
  · refine ⟨hinvw, hw, fun hfaultless => ?_⟩
    have hfailed := herror (by rintro rfl; cases hallowed hfaultless)
    by_contra hclear
    rw [Obstructed, not_or, not_not, ← hw.find_eq_directory_iff, ← hw.find_eq_directory_iff] at hclear
    obtain ⟨inode, hfind, _⟩ := Fs.file_eq_some_iff.mp (hw.file_eq_some_iff.mpr hsource)
    obtain ⟨fs', hfs'⟩ := exists_rename_eq_ok hfind hclear.2 hclear.1
    rw [hfs'] at hfailed
    cases hfailed
  · obtain ⟨fs', hok, hpair⟩ := map_eq_ok_iff.mp hrename
    obtain ⟨rfl, rfl⟩ := Prod.mk.inj hpair
    have hview := view_rename hw.links hdir hne hok
    rw [hw.view, hsource] at hview
    have hseen : Seen dir (Function.update (Function.update v target (some (.file bytes))) source none) events
        (⟨fs', (who, .rename source target) :: w.trace⟩ : World Who Event) :=
      ⟨hw.links.rename hdir hok, hview, hw.events⟩
    exact ⟨hinv _ hseen, hseen⟩

/-- Writing a whole file. -/
theorem write_solo {post : Outcome IoError Unit → World Who Event → Prop} (hdir : dir <+: path)
    (hinv : ∀ k inode w, Filling dir v events path inode (contents.take k) w → inv w)
    (hdone : ∀ inode w, Filling dir v events path inode contents w → post (.done ()) w)
    (hfail : ∀ w e, (faultless = true → Obstructed v path) →
      (Seen dir v events w ∨ ∃ k inode, Filling dir v events path inode (contents.take k) w) → post (.failed e) w)
    (hw : Seen dir v events w) : Keeps who (solo inv faultless) post (fs.write path contents) w := by
  refine Writes.write (Q := fun w => (faultless = true → Obstructed v path) ∧
      (Seen dir v events w ∨ ∃ k inode, Filling dir v events path inode (contents.take k) w)) ?_ (fun inode =>
    Filling.writes hdir (fun k w _ => hinv k inode w) fun hfault k w hk hw =>
      ⟨by simp [hfault], .inr ⟨k, inode, hw⟩⟩) ?_ (fun w e hQ _ => hfail w e hQ.1 hQ.2) hw
  · refine (Seen.create hdir fun inode => hinv 0 inode).imp fun r w hB => ?_
    cases r with
    | ok inode => exact ⟨Nat.zero_le _, hB⟩
    | error e => exact ⟨hB.2, .inl hB.1⟩
  · intro inode w hT _
    rw [List.take_length] at hT
    exact hdone inode w hT.2

end Files

section Directories

/-- Directories were made on the way to a path. -/
def Grown (path : Path) (v v' : Path → Option Entry) : Prop :=
  ∀ q, v' q = v q ∨ q <+: path ∧ v q = none ∧ v' q = some .directory

theorem Grown.refl (path : Path) (v : Path → Option Entry) : Grown path v v := fun _ => .inl rfl

theorem Grown.mono {path' : Path} {v' : Path → Option Entry} (h : Grown path v v') (hpath : path <+: path') :
    Grown path' v v' := fun q => (h q).imp_right fun ⟨hq, hnone, hdirectory⟩ => ⟨hq.trans hpath, hnone, hdirectory⟩

theorem Grown.update {v' : Path → Option Entry} (h : Grown path v v') (hnone : v' path = none) :
    Grown path v (Function.update v' path (some .directory)) := by
  intro q
  by_cases hq : q = path
  · subst hq
    refine .inr ⟨List.prefix_rfl, ?_, Function.update_self ..⟩
    obtain hsame | ⟨_, _, hdirectory⟩ := h q
    · rw [← hsame, hnone]
    · rw [hnone] at hdirectory
      cases hdirectory
  · rw [Function.update_of_ne hq]
    exact h q

theorem Grown.of_file {v' : Path → Option Entry} {q : Path} {bytes : Bytes} (h : Grown path v v')
    (hfile : v' q = some (.file bytes)) : v q = some (.file bytes) := by
  obtain hsame | ⟨_, _, hdirectory⟩ := h q
  · rw [← hsame, hfile]
  · rw [hfile] at hdirectory
    cases hdirectory

theorem Grown.eq_of_not_prefix {v' : Path → Option Entry} {q : Path} (h : Grown path v v') (hq : ¬ q <+: path) :
    v' q = v q := (h q).resolve_right fun h => hq h.1

/-- A file stands where a directory would have to. -/
def Blocked (v : Path → Option Entry) (path : Path) : Prop := ∃ q, q <+: path ∧ ∃ bytes, v q = some (.file bytes)

theorem Seen.mkdir (hinv : ∀ w, v path = none → Seen dir (Function.update v path (some .directory)) events w → inv w) :
    Step who (solo inv faultless) (Seen dir v events) (.mkdir path)
      (Replied (fun _ w => v path = none ∧ Seen dir (Function.update v path (some .directory)) events w) fun e w =>
        Seen dir v events w ∧ (faultless = true → w.fs.mkdir path = .error e)) := by
  refine Step.solo (by simp) fun w choice r w' hw hinvw hallowed happly => ?_
  obtain ⟨e, rfl, rfl, herror⟩ | ⟨_, fs, hmkdir, rfl, rfl⟩ := World.attempt_eq_some happly
  · refine ⟨hinvw, hw, fun hfaultless => ?_⟩
    have hfailed := herror (by rintro rfl; cases hallowed hfaultless)
    cases hresult : w'.fs.mkdir path with
    | ok fs =>
      rw [hresult] at hfailed
      cases hfailed
    | error e' =>
      rw [hresult] at hfailed
      obtain rfl := Except.error.inj hfailed
      rfl
  · obtain ⟨fs', hok, hpair⟩ := map_eq_ok_iff.mp hmkdir
    obtain ⟨rfl, rfl⟩ := Prod.mk.inj hpair
    obtain ⟨hnone, hview⟩ := view_mkdir hok
    rw [hw.view] at hnone hview
    have hseen : Seen dir (Function.update v path (some .directory)) events
        (⟨fs', (who, .mkdir path) :: w.trace⟩ : World Who Event) := ⟨hw.links.mkdir hok, hview, hw.events⟩
    exact ⟨hinv _ hnone hseen, hnone, hseen⟩

/-- A directory that cannot be made is there already, has a file above it or has no parent. -/
theorem blocked_of_mkdir_eq_error {e : IoError} (hw : Seen dir v events w) (h : w.fs.mkdir path = .error e)
    (he : e ≠ .NotFound ∨ v path.dropLast = some .directory) : Blocked v path ∨ v path = some .directory := by
  rw [Fs.mkdir] at h
  split at h
  next hparent =>
    split at h
    next => cases h
    next hsome =>
      rw [hw.find_eq_none_iff] at hsome
      cases hentry : v path with
      | none => exact absurd hentry hsome
      | some entry =>
        cases entry with
        | directory => exact .inr rfl
        | file bytes => exact .inl ⟨path, List.prefix_rfl, bytes, hentry⟩
  next hparent =>
    obtain he | hdirectory := he
    · left
      obtain rfl := Except.error.inj h
      rw [walk_error] at he
      split at he
      next ancestor hancestor =>
        have hmem := List.mem_of_find?_eq_some hancestor
        have hnot := List.find?_some hancestor
        rw [decide_eq_true_iff, ne_eq, hw.find_eq_directory_iff] at hnot
        split at he
        next => exact absurd rfl he
        next hsome =>
          rw [hw.find_eq_none_iff] at hsome
          refine ⟨ancestor, ((List.mem_inits _ _).mp hmem).trans (List.dropLast_prefix path), ?_⟩
          cases hentry : v ancestor with
          | none => exact absurd hentry hsome
          | some entry =>
            cases entry with
            | directory => exact absurd hentry hnot
            | file bytes => exact ⟨bytes, rfl⟩
      next => exact absurd rfl he
    · exact absurd (hw.find_eq_directory_iff.mpr hdirectory) hparent

theorem create_dir_all_reversed_solo {components : Path} {post : Outcome IoError Unit → World Who Event → Prop}
    (hinv : ∀ v' w, Grown components.reverse v v' → Seen dir v' events w → inv w)
    (hdone : ∀ v' w, Grown components.reverse v v' → v' components.reverse = some .directory → Seen dir v' events w →
      post (.done ()) w)
    (hfail : ∀ v' w e, Grown components.reverse v v' → Seen dir v' events w →
      (faultless = true → Blocked v components.reverse) → post (.failed e) w) (hw : Seen dir v events w) :
    Keeps who (solo inv faultless) post (fs.create_dir_all_reversed components) w := by
  induction components generalizing post w with
  | nil => exact hdone v w (.refl _ _) (hw.find_eq_directory_iff.mp (find_nil _)) hw
  | cons name parents ih =>
    have hprefix : parents.reverse <+: (name :: parents).reverse := by simp
    have hparents : (name :: parents).reverse.dropLast = parents.reverse := by simp
    -- a failure after the last attempt, when nothing is missing above the path
    have hcheck : ∀ v' w e, Grown (name :: parents).reverse v v' → Seen dir v' events w →
        (faultless = true → Blocked v' (name :: parents).reverse ∨ v' (name :: parents).reverse = some .directory) →
        Keeps who (solo inv faultless) post (call (.is_dir (name :: parents).reverse) >>= fun is_dir =>
          if is_dir then pure () else .fail e) w := by
      intro v' w e hgrown hw hcase
      refine (Looks.solo rfl (Seen dir v' events)).call rfl hw fun w choice r hw _ hallowed happly => ?_
      obtain ⟨_, htrue, hanswer⟩ := World.ask_eq_some happly
      cases r with
      | true =>
        have hdirectory := of_decide_eq_true (htrue rfl)
        rw [hw.find_eq_directory_iff] at hdirectory
        exact hdone v' w hgrown hdirectory hw
      | false =>
        refine hfail v' w e hgrown hw fun hfaultless => ?_
        obtain ⟨q, hq, bytes, hfile⟩ | hdirectory := hcase hfaultless
        · exact ⟨q, hq, bytes, hgrown.of_file hfile⟩
        · have hisDir := hanswer (by rintro rfl; cases hallowed hfaultless)
          rw [decide_eq_true (hw.find_eq_directory_iff.mpr hdirectory)] at hisDir
          cases hisDir
    have hmkdir : ∀ v', Grown (name :: parents).reverse v v' →
        Step who (solo inv faultless) (Seen dir v' events) (.mkdir (name :: parents).reverse) _ := fun v' hgrown =>
      Seen.mkdir fun w hnone hw => hinv _ w (hgrown.update hnone) hw
    rw [fs.create_dir_all_reversed]
    refine Keeps.op (hmkdir v (.refl _ _)) hw fun r w hB _ => ?_
    cases r with
    | ok _ =>
      obtain ⟨hnone, hw⟩ := hB
      exact hdone _ w ((Grown.refl _ _).update hnone) (Function.update_self ..) hw
    | error e =>
      obtain ⟨hw, herror⟩ := hB
      by_cases he : e = .NotFound
      · subst he
        change Keeps who _ post (fs.create_dir_all_reversed parents >>= _) w
        refine Keeps.bind (ih (fun v' w hgrown => hinv v' w (hgrown.mono hprefix)) (fun v' w hgrown hparent hw => ?_)
          (fun v' w e hgrown hw hblocked => ?_) hw)
        · have hgrown' := hgrown.mono hprefix
          refine Keeps.op (hmkdir v' hgrown') hw fun r w hB _ => ?_
          cases r with
          | ok _ =>
            obtain ⟨hnone, hw⟩ := hB
            exact hdone _ w (hgrown'.update hnone) (Function.update_self ..) hw
          | error e =>
            obtain ⟨hw, herror⟩ := hB
            refine hcheck v' w e hgrown' hw fun hfaultless => ?_
            exact blocked_of_mkdir_eq_error hw (herror hfaultless) (.inr (by rw [hparents]; exact hparent))
        · refine hfail v' w e (hgrown.mono hprefix) hw fun hfaultless => ?_
          obtain ⟨q, hq, hfile⟩ := hblocked hfaultless
          exact ⟨q, hq.trans hprefix, hfile⟩
      · have hblocked := hcheck v w e (.refl _ _) hw fun hfaultless =>
          blocked_of_mkdir_eq_error hw (herror hfaultless) (.inl he)
        cases e with
        | NotFound => exact absurd rfl he
        | _ => exact hblocked

/-- Making a directory and what is missing above it. -/
theorem create_dir_all_solo {post : Outcome IoError Unit → World Who Event → Prop}
    (hinv : ∀ v' w, Grown path v v' → Seen dir v' events w → inv w)
    (hdone : ∀ v' w, Grown path v v' → v' path = some .directory → Seen dir v' events w → post (.done ()) w)
    (hfail : ∀ v' w e, Grown path v v' → Seen dir v' events w → (faultless = true → Blocked v path) →
      post (.failed e) w) (hw : Seen dir v events w) :
    Keeps who (solo inv faultless) post (fs.create_dir_all path) w := by
  rw [← List.reverse_reverse path] at hinv hdone hfail
  exact create_dir_all_reversed_solo hinv hdone hfail hw

end Directories

end posix
