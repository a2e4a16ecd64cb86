import Lys.Posix.Rules
import Lys.RustStd.Result

open rust effect

namespace posix

open Fs

variable {Who Event ε α : Type} {target : Path} {temp : Who → Option Path} {valid : Bytes → Prop} {who : Who}

section State

variable {fs fs' fs'' : Fs} {p q path : Path} {inode : Nat} {bytes : Bytes}

/-- Two paths do not name one file. -/
def Unshared (fs : Fs) (p q : Path) : Prop := ∀ inode, fs.find p = some (.file inode) → fs.find q ≠ some (.file inode)

theorem Unshared.symm (h : Unshared fs p q) : Unshared fs q p := fun inode hq hp => h inode hp hq

theorem unshared_of_find_eq_none (h : fs.find p = none) : Unshared fs p q := by
  intro inode hp
  rw [h] at hp
  cases hp

theorem Unshared.of_find_eq (h : Unshared fs p q) (hp : fs'.find p = fs.find p) (hq : fs'.find q = fs.find q) : Unshared fs' p q := by
  intro inode hfile
  rw [hq]
  exact h inode (hp ▸ hfile)

/-- The temporary names of some process. -/
def Temp (temp : Who → Option Path) (p : Path) : Prop := ∃ who, temp who = some p

/-- A path at which processes publish what they write under temporary names: it holds nothing
or valid contents, and every temporary name has a file of its own. -/
structure Published (target : Path) (temp : Who → Option Path) (valid : Bytes → Prop) (fs : Fs) : Prop where
  apart : ∀ p q, Temp temp p → Temp temp q → q ≠ p → Unshared fs p q
  target : fs.find target = none ∨ ∃ bytes, valid bytes ∧ fs.file target = some bytes

/-- What stands at a path stays there. -/
def Stays (path : Path) (fs fs' : Fs) : Prop := ∀ bytes, fs.file path = some bytes → fs'.file path = some bytes

/-- A temporary name that others leave alone. -/
structure Spared (target p : Path) (fs fs' : Fs) : Prop where
  find : fs'.find p = fs.find p
  content : ∀ inode, fs.find p = some (.file inode) → fs'.content inode = fs.content inode
  apart : Unshared fs target p → Unshared fs' target p

theorem Spared.refl (fs : Fs) : Spared target p fs fs := ⟨rfl, fun _ _ => rfl, id⟩

theorem Spared.trans (h : Spared target p fs fs') (h' : Spared target p fs' fs'') : Spared target p fs fs'' where
  find := h'.find.trans h.find
  content inode hfind := (h'.content inode (h.find.trans hfind)).trans (h.content inode hfind)
  apart := h'.apart ∘ h.apart

/-- What a process does to the file system: what is published stays, and so do the temporary
names of others. -/
structure Minds (target : Path) (temp : Who → Option Path) (who : Who) (fs fs' : Fs) : Prop where
  stays : Stays target fs fs'
  spared : ∀ p, Temp temp p → temp who ≠ some p → Spared target p fs fs'

theorem Minds.refl (fs : Fs) : Minds target temp who fs fs := ⟨fun _ => id, fun _ _ _ => .refl fs⟩

theorem stays_of_find_eq (hfind : fs'.find path = fs.find path)
    (hcontent : ∀ inode, fs.find path = some (.file inode) → fs'.content inode = fs.content inode) : Stays path fs fs' := by
  intro bytes hfile
  obtain ⟨inode, hinode, rfl⟩ := file_eq_some_iff.mp hfile
  exact file_eq_some_iff.mpr ⟨inode, hfind.trans hinode, hcontent inode hinode⟩

/-- A change that leaves the target and the temporary names of others as they are. -/
theorem Published.aside (h : Published target temp valid fs) (hp : temp who = some p)
    (hfind : ∀ q, q = target ∨ Temp temp q ∧ q ≠ p → fs'.find q = fs.find q)
    (hcontent : ∀ q inode, q = target ∨ Temp temp q ∧ q ≠ p → fs.find q = some (.file inode) →
      fs'.content inode = fs.content inode)
    (hapart : ∀ q, Temp temp q → q ≠ p → Unshared fs' p q) :
    Minds target temp who fs fs' ∧ Published target temp valid fs' := by
  have htarget := hfind target (.inl rfl)
  have hstays := stays_of_find_eq htarget fun inode => hcontent target inode (.inl rfl)
  refine ⟨⟨hstays, fun q hq hwho => ?_⟩, fun q r hq hr hne => ?_, ?_⟩
  · have hother : q = target ∨ Temp temp q ∧ q ≠ p := .inr ⟨hq, fun heq => hwho (heq ▸ hp)⟩
    exact ⟨hfind q hother, fun inode => hcontent q inode hother, fun hq => hq.of_find_eq htarget (hfind q hother)⟩
  · by_cases hqp : q = p
    · exact hqp ▸ hapart r hr (hqp ▸ hne)
    · by_cases hrp : r = p
      · exact hrp ▸ (hapart q hq hqp).symm
      · exact (h.apart q r hq hr hne).of_find_eq (hfind q (.inr ⟨hq, hqp⟩)) (hfind r (.inr ⟨hr, hrp⟩))
  · refine h.target.imp htarget.trans ?_
    rintro ⟨bytes, hvalid, hfile⟩
    exact ⟨bytes, hvalid, hstays bytes hfile⟩

/-- The file under a temporary name, not published yet. -/
structure Prepared (target p : Path) (inode : Nat) (bytes : Bytes) (fs : Fs) : Prop where
  find : fs.find p = some (.file inode)
  content : fs.content inode = bytes
  apart : Unshared fs target p

theorem Prepared.spared (h : Prepared target p inode bytes fs) (hfs : Spared target p fs fs') :
    Prepared target p inode bytes fs' where
  find := hfs.find.trans h.find
  content := (hfs.content inode h.find).trans h.content
  apart := hfs.apart h.apart

/-- Making a directory. -/
theorem Published.mkdir (h : Published target temp valid fs) (hp : temp who = some p)
    (hpath : path ≠ target ∧ ¬ Temp temp path) (hmkdir : fs.mkdir path = .ok fs') :
    Minds target temp who fs fs' ∧ Published target temp valid fs' ∧ (Unshared fs target p → Unshared fs' target p) := by
  obtain ⟨_, _, hfind, hcontents⟩ := mkdir_eq_ok hmkdir
  have hsame : ∀ q, q = target ∨ Temp temp q → fs'.find q = fs.find q := by
    intro q hq
    rw [hfind, if_neg]
    rintro rfl
    exact hq.elim hpath.1 hpath.2
  obtain ⟨hminds, hpublished⟩ := h.aside hp (fun q hq => hsame q (hq.imp_right And.left))
    (fun q inode _ _ => content_of_contents_eq hcontents)
    fun q hq hne => (h.apart p q ⟨who, hp⟩ hq hne).of_find_eq (hsame p (.inr ⟨who, hp⟩)) (hsame q (.inr hq))
  exact ⟨hminds, hpublished, fun hapart => hapart.of_find_eq (hsame target (.inl rfl)) (hsame p (.inr ⟨who, hp⟩))⟩

/-- Writing to the file under the own temporary name. -/
theorem Published.store (h : Published target temp valid fs) (hp : temp who = some p)
    (hprepared : Prepared target p inode bytes fs) (hfind : ∀ q, fs'.find q = fs.find q)
    (hcontent : ∀ i, i ≠ inode → fs'.content i = fs.content i) :
    Minds target temp who fs fs' ∧ Published target temp valid fs' ∧
      Prepared target p inode (fs'.content inode) fs' := by
  have hother : ∀ q i, q = target ∨ Temp temp q ∧ q ≠ p → fs.find q = some (.file i) → i ≠ inode := by
    rintro q i (rfl | ⟨hq, hne⟩) hi rfl
    · exact hprepared.apart i hi hprepared.find
    · exact h.apart p q ⟨who, hp⟩ hq hne i hprepared.find hi
  obtain ⟨hminds, hpublished⟩ := h.aside hp (fun q _ => hfind q) (fun q i hq hi => hcontent i (hother q i hq hi))
    fun q hq hne => (h.apart p q ⟨who, hp⟩ hq hne).of_find_eq (hfind p) (hfind q)
  exact ⟨hminds, hpublished, (hfind p).trans hprepared.find, rfl, hprepared.apart.of_find_eq (hfind target) (hfind p)⟩

/-- Opening the own temporary name, which is emptied or made. -/
theorem Published.create (h : Published target temp valid fs) (hp : temp who = some p) (htarget : p ≠ target)
    (hapart : Unshared fs target p) (hcreate : fs.create p = .ok (inode, fs')) :
    Minds target temp who fs fs' ∧ Published target temp valid fs' ∧ Prepared target p inode [] fs' := by
  obtain ⟨_, ⟨hfile, _⟩ | ⟨hnone, rfl, _⟩, hfind, hempty, hcontent⟩ := create_eq_ok hcreate
  · have hsame : ∀ q, fs'.find q = fs.find q := by
      intro q
      rw [hfind]
      split
      next hq => rw [hq, hfile]
      next => rfl
    obtain ⟨hminds, hpublished, hprepared⟩ := h.store hp ⟨hfile, rfl, hapart⟩ hsame hcontent
    rw [hempty] at hprepared
    exact ⟨hminds, hpublished, hprepared⟩
  · have hsame : ∀ q, q ≠ p → fs'.find q = fs.find q := fun q hq => by rw [hfind, if_neg hq]
    have hfresh : fs'.find p = some (.file fs.contents.length) := by rw [hfind, if_pos rfl]
    have hnew : ∀ q, q ≠ p → Unshared fs' p q := by
      intro q hq i hi hi'
      rw [hfresh] at hi
      rw [hsame q hq] at hi'
      obtain rfl := Node.file.inj (Option.some.inj hi)
      exact absurd (lt_of_find_eq_file hi') (lt_irrefl _)
    have hne : ∀ q, q = target ∨ Temp temp q ∧ q ≠ p → q ≠ p := by
      rintro q (rfl | ⟨_, hq⟩)
      · exact htarget.symm
      · exact hq
    obtain ⟨hminds, hpublished⟩ := h.aside hp (fun q hq => hsame q (hne q hq))
      (fun q i _ hi => hcontent i (lt_of_find_eq_file hi).ne) fun q _ hq => hnew q hq
    exact ⟨hminds, hpublished, hfresh, hempty, (hnew target htarget.symm).symm⟩

/-- Publishing the file under the own temporary name. -/
theorem Published.hard_link (h : Published target temp valid fs) (hp : temp who = some p) (htemp : ¬ Temp temp target)
    (hvalid : valid bytes) (hprepared : Prepared target p inode bytes fs) (hlink : fs.hard_link p target = .ok fs') :
    Minds target temp who fs fs' ∧ Published target temp valid fs' ∧ fs'.file target = some bytes := by
  obtain ⟨i, hi, hnone, hcontents, hfind⟩ := hard_link_eq_ok hlink
  rw [hprepared.find] at hi
  obtain rfl := Node.file.inj (Option.some.inj hi)
  have hsame : ∀ q, Temp temp q → fs'.find q = fs.find q := by
    intro q hq
    rw [hfind, if_neg]
    rintro rfl
    exact htemp hq
  have htarget : fs'.find target = some (.file inode) := by rw [hfind, if_pos rfl]
  have hfile : fs'.file target = some bytes :=
    file_eq_some_iff.mpr ⟨inode, htarget, (content_of_contents_eq hcontents).trans hprepared.content⟩
  refine ⟨⟨fun old hold => ?_, fun q hq hwho => ?_⟩, ⟨fun q r hq hr hne => ?_, .inr ⟨bytes, hvalid, hfile⟩⟩, hfile⟩
  · obtain ⟨_, hold, _⟩ := file_eq_some_iff.mp hold
    rw [hnone] at hold
    cases hold
  · refine ⟨hsame q hq, fun i _ => content_of_contents_eq hcontents, fun _ i hi hi' => ?_⟩
    rw [htarget] at hi
    rw [hsame q hq] at hi'
    obtain rfl := Node.file.inj (Option.some.inj hi)
    exact h.apart p q ⟨who, hp⟩ hq (fun heq => hwho (heq ▸ hp)) _ hprepared.find hi'
  · exact (h.apart q r hq hr hne).of_find_eq (hsame q hq) (hsame r hr)

/-- Removing the own temporary name. -/
theorem Published.remove_file (h : Published target temp valid fs) (hp : temp who = some p) (htarget : p ≠ target)
    (hremove : fs.remove_file p = .ok fs') : Minds target temp who fs fs' ∧ Published target temp valid fs' := by
  obtain ⟨hcontents, hfind⟩ := remove_file_eq_ok hremove
  refine h.aside hp (fun q hq => ?_) (fun q i _ _ => content_of_contents_eq hcontents) fun q _ _ =>
    unshared_of_find_eq_none (by rw [hfind, if_pos rfl])
  rw [hfind, if_neg]
  rintro rfl
  exact hq.elim htarget fun hq => hq.2 rfl

end State

section Rules

variable {post : Outcome ε α → World Who Event → Prop} {A : World Who Event → Prop} {w : World Who Event}
  {p path : Path} {inode : Nat} {bytes : Bytes} {op : Op Event}

/-- A process that publishes among others. It counts on the published contents, and until its
end on its temporary name; whoever finds nothing published has not merely failed to look. -/
def publishing (target : Path) (temp : Who → Option Path) (valid : Bytes → Prop) (who : Who) :
    Contract (Calls Who Event) where
  rely next w w' := Stays target w.fs w'.fs ∧
    (next ≠ none → ∀ p, temp who = some p → Spared target p w.fs w'.fs)
  guar _ w w' := Minds target temp who w.fs w'.fs
  rest _ _ := True
  inv w := Published target temp valid w.fs
  allowed op choice w := op = .path_exists target → choice = .fault → w.fs.find target = none
  progress := False

/-- What a waiting process counts on. -/
def Waits (target : Path) (temp : Who → Option Path) (who : Who) (A : World Who Event → Prop) : Prop :=
  ∀ w w', A w → Stays target w.fs w'.fs → (∀ p, temp who = some p → Spared target p w.fs w'.fs) → A w'

theorem waits_true : Waits target temp who fun _ : World Who Event => True := fun _ _ _ _ _ => trivial

theorem waits_apart (hp : temp who = some p) : Waits target temp who fun w : World Who Event => Unshared w.fs target p :=
  fun _ _ hw _ hspared => (hspared p hp).apart hw

theorem waits_prepared (hp : temp who = some p) :
    Waits target temp who fun w : World Who Event => Prepared target p inode bytes w.fs :=
  fun _ _ hw _ hspared => hw.spared (hspared p hp)

theorem waits_file : Waits target temp who fun w : World Who Event => w.fs.file target = some bytes :=
  fun _ _ hw hstays _ => hstays bytes hw

theorem Looks.publishing (hA : Waits target temp who A) : Looks who (publishing target temp valid who) A op where
  stable w w' hw hrely _ := hA w w' hw hrely.1 (hrely.2 (by simp))
  rest _ _ _ := trivial
  progress hprogress := hprogress.elim
  guar _ _ _ := .refl _

theorem Step.publishing {B : op.Reply → World Who Event → Prop} (hA : Waits target temp who A)
    (hstep : ∀ w choice r w', A w → Published target temp valid w.fs → apply who op choice w = some (r, w') →
      Minds target temp who w.fs w'.fs ∧ Published target temp valid w'.fs ∧ B r w') :
    Step who (publishing target temp valid who) A op B where
  stable w w' hw hrely _ := hA w w' hw hrely.1 (hrely.2 (by simp))
  rest _ _ _ := trivial
  progress hprogress := hprogress.elim
  step w choice r w' hw hinv _ happly := hstep w choice r w' hw hinv happly

/-- Nothing is published yet, or the look failed because of it. -/
theorem publishing_path_exists {f : Bool → Prog (Calls Who Event) ε α}
    (hthere : ∀ w, Published target temp valid w.fs → Keeps who (publishing target temp valid who) post (f true) w)
    (habsent : ∀ w, Published target temp valid w.fs → w.fs.find target = none →
      Keeps who (publishing target temp valid who) post (f false) w) :
    Keeps who (publishing target temp valid who) post (call (.path_exists target) >>= f) w := by
  refine (Looks.publishing waits_true).call rfl trivial fun w choice r _ hinv hallowed happly => ?_
  obtain ⟨_, _, hanswer⟩ := World.ask_eq_some happly
  cases r with
  | true => exact hthere w hinv
  | false =>
    refine habsent w hinv ?_
    by_cases hfault : choice = .fault
    · exact hallowed rfl hfault
    · exact Option.isSome_eq_false_iff.mp (hanswer hfault).symm |> Option.isNone_iff_eq_none.mp

/-- A change of the file system that replies nothing happens, or it fails and nothing changes. -/
theorem World.attempt_map_eq_some {w' : World Who Event} {choice : Choice} {result : Except IoError Fs}
    {reply : Except IoError Unit} (h : w.attempt who op (result.map fun fs => ((), fs)) choice = some (reply, w')) :
    (∃ e, reply = .error e ∧ w' = w) ∨ ∃ fs, result = .ok fs ∧ reply = .ok () ∧ w' = ⟨fs, (who, op) :: w.trace⟩ := by
  obtain ⟨e, hreply, hsame, _⟩ | ⟨_, fs, hmap, hreply, hw'⟩ := World.attempt_eq_some h
  · exact .inl ⟨e, hreply, hsame⟩
  · obtain ⟨fs', hok, hpair⟩ := map_eq_ok_iff.mp hmap
    obtain ⟨_, rfl⟩ := Prod.mk.inj hpair
    exact .inr ⟨fs', hok, hreply, hw'⟩

theorem publishing_mkdir (hp : temp who = some p) (hpath : path ≠ target ∧ ¬ Temp temp path) :
    Step who (publishing target temp valid who) (fun w : World Who Event => Unshared w.fs target p) (.mkdir path)
      (fun _ w => Unshared w.fs target p) := by
  refine Step.publishing (waits_apart hp) fun w choice r w' hw hinv happly => ?_
  obtain ⟨_, _, rfl⟩ | ⟨_, hmkdir, rfl, rfl⟩ := World.attempt_map_eq_some happly
  · exact ⟨.refl _, hinv, hw⟩
  · obtain ⟨hminds, hpublished, hapart⟩ := hinv.mkdir hp hpath hmkdir
    exact ⟨hminds, hpublished, hapart hw⟩

/-- Directories that are made above the target and the temporary names. -/
theorem publishing_create_dir_all_reversed {components : Path} {post : Outcome IoError Unit → World Who Event → Prop}
    (hp : temp who = some p) (hpath : ∀ q, q <+: components.reverse → q ≠ target ∧ ¬ Temp temp q)
    (hend : ∀ out w, out ≠ .panicked → Unshared w.fs target p → post out w) (hw : Unshared w.fs target p) :
    Keeps who (publishing target temp valid who) post (fs.create_dir_all_reversed components) w := by
  induction components generalizing post w with
  | nil => exact hend _ w (by simp) hw
  | cons name parents ih =>
    have hstep : Step who (publishing target temp valid who) (fun w : World Who Event => Unshared w.fs target p)
        (.mkdir (name :: parents).reverse) fun _ w => Unshared w.fs target p := publishing_mkdir hp (hpath _ List.prefix_rfl)
    have hcheck : ∀ e (w : World Who Event), Unshared w.fs target p →
        Keeps who (publishing target temp valid who) post (call (.is_dir (name :: parents).reverse) >>= fun is_dir =>
          if is_dir then pure () else .fail e) w := by
      intro e w hw
      refine (Looks.publishing (waits_apart hp)).call rfl hw fun w choice r hw _ _ _ => ?_
      cases r with
      | true => exact hend _ w (by simp) hw
      | false => exact hend _ w (by simp) hw
    rw [fs.create_dir_all_reversed]
    refine Keeps.op hstep hw fun r w hw _ => ?_
    cases r with
    | ok _ => exact hend _ w (by simp) hw
    | error e =>
      by_cases he : e = .NotFound
      · subst he
        change Keeps who _ post (fs.create_dir_all_reversed parents >>= _) w
        refine Keeps.bind (ih (fun q hq => hpath q (hq.trans (by simp))) (fun out w hout hw => ?_) hw)
        cases out with
        | panicked => exact absurd rfl hout
        | failed e => exact hend _ w (by simp) hw
        | done _ =>
          refine Keeps.op hstep hw fun r w hw _ => ?_
          cases r with
          | ok _ => exact hend _ w (by simp) hw
          | error e => exact hcheck e w hw
      · have hchecked := hcheck e w hw
        cases e with
        | NotFound => exact absurd rfl he
        | _ => exact hchecked

theorem publishing_create (hp : temp who = some p) (htarget : p ≠ target) :
    Step who (publishing target temp valid who) (fun w : World Who Event => Unshared w.fs target p) (.create p)
      (Replied (fun inode w => Prepared target p inode [] w.fs) fun _ _ => True) := by
  refine Step.publishing (waits_apart hp) fun w choice r w' hw hinv happly => ?_
  obtain ⟨_, rfl, rfl, _⟩ | ⟨inode, fs', hcreate, rfl, rfl⟩ := World.attempt_eq_some happly
  · exact ⟨.refl _, hinv, trivial⟩
  · exact hinv.create hp htarget hw hcreate

theorem writes_publishing {contents : Bytes} (hp : temp who = some p) :
    Writes who (publishing target temp valid who) inode contents
      (fun k (w : World Who Event) => Prepared target p inode (contents.take k) w.fs) (fun _ => True) where
  stable _ _ w w' hw hrely _ := waits_prepared hp w w' hw hrely.1 (hrely.2 (by simp))
  rest _ _ _ _ _ := trivial
  progress hprogress := hprogress.elim
  stores k count w hw hinv _ hle := by
    have hlength : (w.fs.content inode).length = k := by
      rw [hw.content, List.length_take]
      omega
    have hfind : ∀ q, (w.stored who inode k contents count).fs.find q = w.fs.find q := fun _ => rfl
    have hothers : ∀ i, i ≠ inode → (w.stored who inode k contents count).fs.content i = w.fs.content i :=
      fun _ => content_write_of_ne
    have hcontent : (w.stored who inode k contents count).fs.content inode = contents.take (k + count) := by
      rw [World.stored, content_write_end (lt_of_find_eq_file hw.find) hlength, hw.content, List.take_add]
    obtain ⟨hminds, hpublished, hprepared⟩ := hinv.store hp hw hfind hothers
    rw [hcontent] at hprepared
    exact ⟨hminds, hpublished, hprepared⟩
  fails _ _ _ _ _ _ := ⟨.refl _, trivial⟩

theorem publishing_set_permissions (hp : temp who = some p) :
    Step who (publishing target temp valid who) (fun w : World Who Event => Prepared target p inode bytes w.fs) (.set_permissions path)
      (fun _ w => Prepared target p inode bytes w.fs) := by
  refine Step.publishing (waits_prepared hp) fun w choice r w' hw hinv happly => ?_
  obtain ⟨_, _, rfl, _⟩ | ⟨_, fs', hresult, _, rfl⟩ := World.attempt_eq_some happly
  · exact ⟨.refl _, hinv, hw⟩
  · split at hresult
    · obtain ⟨_, rfl⟩ := Prod.mk.inj (Except.ok.inj hresult)
      exact ⟨.refl _, hinv, hw⟩
    · cases hresult

theorem publishing_hard_link (hp : temp who = some p) (htemp : ¬ Temp temp target) (hvalid : valid bytes) :
    Step who (publishing target temp valid who) (fun w : World Who Event => Prepared target p inode bytes w.fs) (.hard_link p target)
      (Replied (fun _ w => w.fs.file target = some bytes) fun _ _ => True) := by
  refine Step.publishing (waits_prepared hp) fun w choice r w' hw hinv happly => ?_
  obtain ⟨_, rfl, rfl⟩ | ⟨_, hlink, rfl, rfl⟩ := World.attempt_map_eq_some happly
  · exact ⟨.refl _, hinv, trivial⟩
  · exact hinv.hard_link hp htemp hvalid hw hlink

theorem publishing_remove_file (hp : temp who = some p) (htarget : p ≠ target) (hA : Waits target temp who A)
    (hstays : ∀ w w', A w → Stays target w.fs w'.fs → A w') :
    Step who (publishing target temp valid who) A (.remove_file p) (fun _ => A) := by
  refine Step.publishing hA fun w choice r w' hw hinv happly => ?_
  obtain ⟨_, _, rfl⟩ | ⟨_, hremove, rfl, rfl⟩ := World.attempt_map_eq_some happly
  · exact ⟨.refl _, hinv, hw⟩
  · obtain ⟨hminds, hpublished⟩ := hinv.remove_file hp htarget hremove
    exact ⟨hminds, hpublished, hstays _ _ hw hminds.stays⟩

end Rules

section Runs

variable {post : Outcome ε α → World Who Event → Prop} {sys sys' mid last : System (Calls Who Event) ε α}
  {choice : Choice} {action : Action (Calls Who Event)} [DecidableEq Who]

/-- Nobody else is at work under the same temporary name, and no look for the target fails that
would have found it. -/
def Exclusive (target : Path) (temp : Who → Option Path) (sys : System (Calls Who Event) ε α) :
    Action (Calls Who Event) → Prop
  | .act who choice =>
    (∀ other, other ≠ who → sys.status other = .live → (sys.procs other).head ≠ none →
      ∀ p, temp who = some p → temp other ≠ some p) ∧
    ((sys.procs who).head = some (.path_exists target) → choice = .fault → sys.state.fs.find target = none)
  | .crash _ => True

/-- Processes that publish at one path; `post` holds of their ends. -/
def publishers (target : Path) (temp : Who → Option Path) (valid : Bytes → Prop)
    (post : Outcome ε α → World Who Event → Prop) : Family (Calls Who Event) ε α where
  contract := publishing target temp valid
  start _ _ := True
  post _ := post

/-- What holds of an end goes on to hold while the published contents stay. -/
def Lasting (target : Path) (post : Outcome ε α → World Who Event → Prop) : Prop :=
  ∀ out w w', post out w → Stays target w.fs w'.fs → post out w'

omit [DecidableEq Who] in
theorem publishers_stable (hpost : Lasting target post) : (publishers target temp valid post).Stable where
  rely_refl _ _ w := ⟨fun _ => id, fun _ _ _ => .refl w.fs⟩
  rely_trans _ _ _ _ _ h h' :=
    ⟨fun bytes hfile => h'.1 bytes (h.1 bytes hfile), fun hnext p hp => (h.2 hnext p hp).trans (h'.2 hnext p hp)⟩
  post_stable _ out w w' hw hrely := hpost out w w' hw hrely.1

omit [DecidableEq Who] in
theorem publishers_respect : (publishers target temp valid post).Respects (Exclusive target temp) where
  allowed sys who choice op next _ hcond _ hproc := by
    rintro rfl hfault
    exact hcond.2 (by rw [hproc]; rfl) hfault
  interfere sys who choice op next r w' _ hcond _ _ _ hguar hinv other hother := by
    refine ⟨hinv, fun _ h => h, fun hlive => ⟨hguar.stays, fun hnext p hp => ?_⟩⟩
    exact hguar.spared p ⟨other, hp⟩ fun hwho => hcond.1 other hother hlive hnext p hwho hp

/-- The programs of a system keep their contracts, and their ends have been as `post` says. -/
structure Publishes (target : Path) (temp : Who → Option Path) (valid : Bytes → Prop)
    (post : Outcome ε α → World Who Event → Prop) (sys : System (Calls Who Event) ε α) : Prop where
  published : Published target temp valid sys.state.fs
  holds : (publishers target temp valid post).Holds sys
  ended : ∀ who out, (sys.procs who).outcome = some out → post out sys.state

theorem Publishes.step (h : Publishes target temp valid post sys) (hpost : Lasting target post)
    (hcond : Exclusive target temp sys action) (hstep : sys.step action = some sys') :
    Publishes target temp valid post sys' ∧ Stays target sys.state.fs sys'.state.fs := by
  have hholds := h.holds.step (publishers_stable hpost) publishers_respect hcond hstep
  cases action with
  | crash who =>
    obtain ⟨_, rfl⟩ := System.step_crash_eq_some hstep
    exact ⟨⟨h.published, hholds, h.ended⟩, fun _ => id⟩
  | act who choice =>
    obtain ⟨_, hguar⟩ := h.holds.guar (publishers_stable hpost) publishers_respect hcond hstep
    obtain ⟨_, _, _, _, _, _, hprocs, hstatus⟩ := System.step_act_eq_some hstep
    refine ⟨⟨(hholds who).1, hholds, fun other out hout => ?_⟩, hguar.stays⟩
    by_cases hother : other = who
    · have hlive : sys'.status other = .live := by rw [hother, hstatus, Function.update_self]
      have hkeeps := (hholds other).2.2 hlive
      cases hproc : sys'.procs other with
      | op op next => rw [hproc] at hout; cases hout
      | _ =>
        rw [hproc] at hout hkeeps
        obtain rfl := Option.some.inj hout
        exact hkeeps
    · rw [hprocs, Function.update_of_ne hother] at hout
      exact hpost out _ _ (h.ended other out hout) hguar.stays

/-- Every run in which processes mind each other's temporary names keeps what is published. -/
theorem Publishes.reaches (h : Publishes target temp valid post sys) (hpost : Lasting target post)
    (hreach : System.Reaches (Exclusive target temp) sys last) :
    Publishes target temp valid post last ∧ Stays target sys.state.fs last.state.fs := by
  induction hreach with
  | refl => exact ⟨h, fun _ => id⟩
  | tail _ hcond hstep ih =>
    obtain ⟨hpublishes, hstays⟩ := ih
    obtain ⟨hnext, hkept⟩ := hpublishes.step hpost hcond hstep
    exact ⟨hnext, fun bytes hfile => hkept bytes (hstays bytes hfile)⟩

omit [DecidableEq Who] in
/-- Processes that have not started. -/
theorem publishes_of_idle (hidle : ∀ who, sys.status who = .idle) (hpublished : Published target temp valid sys.state.fs)
    (hprocs : ∀ who, (sys.procs who).outcome = none)
    (hkeeps : ∀ who w, Published target temp valid w.fs →
      Keeps who (publishing target temp valid who) post (sys.procs who) w) : Publishes target temp valid post sys where
  published := hpublished
  holds who := ⟨hpublished, fun _ => ⟨trivial, fun w _ => hkeeps who w⟩, fun hlive => by
    rw [hidle who] at hlive
    cases hlive⟩
  ended who out hout := by
    rw [hprocs who] at hout
    cases hout

end Runs

end posix
