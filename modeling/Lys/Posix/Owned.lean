import Lys.Effect.Run
import Lys.Posix.Rules

open rust effect posix Fs

namespace posix

variable {Who Event ε ε' α β : Type} {P : Path → Prop} {R : Event → Prop} {held : Option Nat}

section Spares

/-- The file that a process holds open after a call. -/
def Op.opens (held : Option Nat) : (op : Op Event) → op.Reply → Option Nat
  | .create _, r | .create_new _, r => r.toOption
  | .write _ _ _, _ => held
  | _, _ => none

/-- At the paths `P` a call at most makes a new file. It writes to the file that the process
holds open, and records what `R` admits. -/
def Op.Spares (P : Path → Prop) (R : Event → Prop) (held : Option Nat) : Op Event → Prop
  | .create path | .remove_file path => ¬ P path
  | .rename source target | .hard_link source target => ¬ P source ∧ ¬ P target
  | .write inode _ _ => held = some inode
  | .record event => R event
  | _ => True

/-- Every call of a program does so. -/
def Spares (P : Path → Prop) (R : Event → Prop) : Option Nat → Prog (Calls Who Event) ε α → Prop
  | held, .op op next => Op.Spares P R held op ∧ ∀ r, Spares P R (Op.opens held op r) (next r)
  | _, _ => True

variable {x : Prog (Calls Who Event) ε α}

/-- Who holds no file open writes to none. -/
theorem Spares.of_none (h : Spares P R none x) (held : Option Nat) : Spares P R held x := by
  cases x with
  | ret a => trivial
  | fail e => trivial
  | panic => trivial
  | op op next =>
    obtain ⟨hop, hnext⟩ := h
    cases op with
    | write inode offset bytes => cases hop
    | _ => exact ⟨hop, hnext⟩

theorem Spares.bind_of_returns {f : α → Prog (Calls Who Event) ε β} {Q : α → Prop} (hx : Spares P R held x)
    (hreturns : Returns Q x) (hf : ∀ a, Q a → Spares P R none (f a)) : Spares P R held (x >>= f) := by
  induction x generalizing held with
  | ret a => exact (hf a hreturns).of_none held
  | fail e => trivial
  | panic => trivial
  | op op next ih => exact ⟨hx.1, fun r => ih r (hx.2 r) (hreturns r)⟩

theorem Spares.bind {f : α → Prog (Calls Who Event) ε β} (hx : Spares P R held x) (hf : ∀ a, Spares P R none (f a)) :
    Spares P R held (x >>= f) := hx.bind_of_returns (returns_true x) fun a _ => hf a

theorem Spares.map_error {f : ε → ε'} (hx : Spares P R held x) : Spares P R held (x.map_error f) := by
  induction x generalizing held with
  | ret a => trivial
  | fail e => trivial
  | panic => trivial
  | op op next ih => exact ⟨hx.1, fun r => ih r (hx.2 r)⟩

theorem Spares.attempt (hx : Spares P R held x) :
    Spares P R held (x.attempt : Prog (Calls Who Event) ε' (Except ε α)) := by
  induction x generalizing held with
  | ret a => trivial
  | fail e => trivial
  | panic => trivial
  | op op next ih => exact ⟨hx.1, fun r => ih r (hx.2 r)⟩

theorem spares_of_except (result : Except ε α) :
    Spares P R held (Prog.of_except result : Prog (Calls Who Event) ε α) := by
  cases result with
  | ok a => trivial
  | error e => trivial

/-- A call that looks. -/
theorem Spares.look {op : Op Event} {next : op.Reply → Prog (Calls Who Event) ε α} (hop : op.looks = true)
    (hnext : ∀ r, Spares P R none (next r)) : Spares P R held (call op >>= next) := by
  refine ⟨?_, fun r => (hnext r).of_none _⟩
  cases op with
  | path_exists => trivial
  | is_file => trivial
  | is_dir => trivial
  | read => trivial
  | read_dir => trivial
  | _ => cases hop

theorem spares_read (path : Path) : Spares P R held (fs.read path : Prog (Calls Who Event) IoError Bytes) :=
  Spares.look rfl spares_of_except

theorem spares_write_all (inode fuel offset : Nat) (bytes : Bytes) :
    Spares P R (some inode) (fs.write_all inode fuel offset bytes : Prog (Calls Who Event) IoError Unit) := by
  induction fuel generalizing offset bytes with
  | zero => cases bytes <;> trivial
  | succ fuel ih =>
    cases bytes with
    | nil => trivial
    | cons byte bytes =>
      refine ⟨rfl, fun r => ?_⟩
      cases r with
      | ok count => exact ih _ _
      | error e => trivial

/-- An opened file that is written. -/
theorem spares_fill {op : Op Event} {next : op.Reply → Prog (Calls Who Event) ε α} (hop : Op.Spares P R held op)
    (hnext : ∀ r, Spares P R (Op.opens held op r) (next r)) : Spares P R held (call op >>= next) := ⟨hop, hnext⟩

theorem spares_write {path : Path} (hpath : ¬ P path) (contents : Bytes) :
    Spares P R held (fs.write path contents : Prog (Calls Who Event) IoError Unit) := by
  refine spares_fill hpath fun r => ?_
  cases r with
  | ok inode => exact spares_write_all inode _ _ _
  | error e => trivial

theorem spares_rename {source target : Path} (hsource : ¬ P source) (htarget : ¬ P target) :
    Spares P R held (fs.rename source target : Prog (Calls Who Event) IoError Unit) :=
  spares_fill ⟨hsource, htarget⟩ spares_of_except

end Spares

section Calls

/-- The files at the paths `P` have no other name. -/
def OneName (P : Path → Prop) (fs : Fs) : Prop :=
  ∀ p q inode, P p → fs.find p = some (.file inode) → fs.find q = some (.file inode) → q = p

/-- The file that a node is. -/
def Node.inode : Node → Option Nat
  | .file inode => some inode
  | .directory => none

/-- Files that are named once have one name. -/
theorem oneName_of_nodup {fs : Fs} (h : (fs.entries.entries.filterMap fun entry => entry.2.inode).Nodup) : OneName P fs := by
  intro p q inode _ hp hq
  have hmem : ∀ {path}, fs.find path = some (.file inode) → ⟨path, .file inode⟩ ∈ fs.entries.entries := by
    intro path hfind
    have hne : path ≠ [] := by
      rintro rfl
      cases hfind
    rw [find_of_ne hne] at hfind
    exact AList.mem_lookup_iff.mp hfind
  let Apart (a b : Sigma fun _ : Path => Node) : Prop := ∀ i, a.2.inode = some i → ∀ j, b.2.inode = some j → i ≠ j
  have hsymm : Std.Symm Apart := ⟨fun a b h i hi j hj => (h j hj i hi).symm⟩
  have hpairs : fs.entries.entries.Pairwise Apart := List.pairwise_filterMap.mp h
  by_contra hne
  exact hpairs.forall (hmem hp) (hmem hq) (fun heq => hne (congrArg Sigma.fst heq).symm) inode rfl inode rfl rfl

variable {who : Who} {op : Op Event} {choice : Choice} {r : op.Reply} {w w' : World Who Event}

/-- What a sparing call does to the files at the paths `P`. -/
structure Kept (P : Path → Prop) (who : Who) (held : Option Nat) (op : Op Event) (r : op.Reply)
    (w w' : World Who Event) : Prop where
  one_name : OneName P w'.fs
  allocated : w.fs.contents.length ≤ w'.fs.contents.length
  find : ∀ p node, P p → w.fs.find p = some node → w'.fs.find p = some node
  known : ∀ p inode, P p → w'.fs.find p = some (.file inode) →
    w.fs.find p = some (.file inode) ∨ w.fs.contents.length ≤ inode
  content : ∀ p inode, P p → w.fs.find p = some (.file inode) →
    w'.fs.content inode = w.fs.content inode ∨ ∃ offset bytes, op = .write inode offset bytes
  opened : ∀ inode, op.opens held r = some inode → (∃ offset bytes, op = .write inode offset bytes ∧ held = some inode) ∨
    inode < w'.fs.contents.length ∧ ∀ p, P p → w'.fs.find p = some (.file inode) →
      w.fs.find p = none ∧ (who, .create_new p) ∈ w'.trace
  trace : w'.trace = w.trace ∨ w'.trace = (who, op) :: w.trace
  made : ∀ other p, P p → (other, .create_new p) ∈ w'.trace → (other, .create_new p) ∈ w.trace ∨
    other = who ∧ w.fs.find p = none ∧ ∃ inode, w'.fs.find p = some (.file inode)

theorem Kept.suffix (h : Kept P who held op r w w') : w.trace <:+ w'.trace := by
  obtain htrace | htrace := h.trace
  · rw [htrace]
  · rw [htrace]
    exact List.suffix_cons _ _

/-- A call that fails or only looks. -/
theorem Kept.same (hone : OneName P w.fs)
    (hopens : ∀ inode, op.opens held r = some inode → ∃ offset bytes, op = .write inode offset bytes ∧ held = some inode) :
    Kept P who held op r w w where
  one_name := hone
  allocated := le_rfl
  find _ _ _ h := h
  known _ _ _ h := .inl h
  content _ _ _ _ := .inl rfl
  opened inode h := .inl (hopens inode h)
  trace := .inl rfl
  made _ _ _ h := .inl h

/-- A call that changes no file at the paths `P` and opens none. -/
theorem Kept.elsewhere {fs : Fs} (hone : OneName P w.fs) (hnew : ∀ p, op ≠ .create_new p)
    (hfind : ∀ p, P p → fs.find p = w.fs.find p ∨ w.fs.find p = none ∧ fs.find p = some .directory)
    (hnames : ∀ q inode, fs.find q = some (.file inode) → w.fs.contents.length ≤ inode ∨ w.fs.find q = some (.file inode) ∨
      ∃ source, ¬ P source ∧ w.fs.find source = some (.file inode))
    (hlength : w.fs.contents.length ≤ fs.contents.length)
    (hcontent : ∀ p inode, P p → w.fs.find p = some (.file inode) → fs.content inode = w.fs.content inode)
    (hopened : ∀ inode, op.opens held r = some inode → inode < fs.contents.length ∧
      ∀ p, P p → fs.find p ≠ some (.file inode)) :
    Kept P who held op r w ⟨fs, (who, op) :: w.trace⟩ where
  one_name p q inode hp hfile hq := by
    have hold : w.fs.find p = some (.file inode) := by
      obtain hsame | ⟨_, hdirectory⟩ := hfind p hp
      · rw [← hsame, hfile]
      · rw [hdirectory] at hfile
        cases hfile
    obtain hfresh | hq | ⟨source, hsource, hnamed⟩ := hnames q inode hq
    · exact absurd (lt_of_find_eq_file hold) (not_lt.mpr hfresh)
    · exact hone p q inode hp hold hq
    · exact absurd (hone p source inode hp hold hnamed ▸ hp) hsource
  allocated := hlength
  find p node hp h := by
    obtain hsame | ⟨hnone, _⟩ := hfind p hp
    · rw [hsame, h]
    · rw [hnone] at h
      cases h
  known p inode hp h := by
    obtain hsame | ⟨_, hdirectory⟩ := hfind p hp
    · exact .inl (hsame ▸ h)
    · rw [hdirectory] at h
      cases h
  content p inode hp h := .inl (hcontent p inode hp h)
  opened inode h := .inr ⟨(hopened inode h).1, fun p hp hfile => absurd hfile ((hopened inode h).2 p hp)⟩
  trace := .inr rfl
  made other p hp h := by
    obtain heq | h := List.mem_cons.mp h
    · exact absurd (Prod.mk.inj heq).2.symm (hnew p)
    · exact .inl h

/-- What a sparing call that succeeds or fails does. -/
theorem Kept.of_attempt {α : Type} {op : Op Event} {result : Except IoError (α × Fs)} {reply : Except IoError α}
    (hone : OneName P w.fs) {r : op.Reply} (h : w.attempt who op result choice = some (reply, w'))
    (hfailed : ∀ e inode, reply = .error e → op.opens held r ≠ some inode)
    (hok : ∀ a fs, result = .ok (a, fs) → reply = .ok a → Kept P who held op r w ⟨fs, (who, op) :: w.trace⟩) :
    Kept P who held op r w w' := by
  obtain ⟨e, hreply, rfl, _⟩ | ⟨a, fs, hresult, hreply, rfl⟩ := World.attempt_eq_some h
  · exact .same hone fun inode hopens => absurd hopens (hfailed e inode hreply)
  · exact hok a fs hresult hreply

theorem map_eq_ok {fs : Fs} {result : Except IoError Fs} {u : Unit}
    (h : result.map (fun fs => ((), fs)) = .ok (u, fs)) : result = .ok fs := by
  cases result with
  | ok fs' => exact congrArg _ (Prod.mk.inj (Except.ok.inj h)).2
  | error e => cases h

theorem Kept.create_new {path : Path} {r : Except IoError Nat} (hone : OneName P w.fs)
    (h : apply who (.create_new path) choice w = some (r, w')) : Kept P who held (.create_new path) r w w' := by
  refine .of_attempt hone h (fun e inode hr => by simp [hr, Op.opens, Except.toOption]) fun inode fs hcreate hr => ?_
  obtain ⟨_, hnone, rfl, hfind, hcontent, hlength⟩ := create_new_eq_ok hcreate
  have hfresh : ∀ q inode, fs.find q = some (.file inode) →
      w.fs.find q = some (.file inode) ∨ q = path ∧ inode = w.fs.contents.length := by
    intro q inode hq
    rw [hfind] at hq
    split at hq
    next hpath => exact .inr ⟨hpath, (Node.file.inj (Option.some.inj hq)).symm⟩
    next => exact .inl hq
  refine ⟨fun p q inode hp hfile hq => ?_, by rw [hlength]; exact Nat.le_succ _, fun p node _ hfile => ?_,
    fun p inode _ hfile => ?_, fun p inode _ _ => .inl (hcontent inode), fun inode hopens => .inr ?_, .inr rfl, fun other p hp hmem => ?_⟩
  · obtain hold | ⟨rfl, rfl⟩ := hfresh p inode hfile
    · obtain hq | ⟨_, rfl⟩ := hfresh q inode hq
      · exact hone p q inode hp hold hq
      · exact absurd (lt_of_find_eq_file hold) (lt_irrefl _)
    · obtain hq | ⟨rfl, _⟩ := hfresh q _ hq
      · exact absurd (lt_of_find_eq_file hq) (lt_irrefl _)
      · rfl
  · rw [hfind, if_neg, hfile]
    rintro rfl
    rw [hnone] at hfile
    cases hfile
  · exact (hfresh p inode hfile).imp_right fun h => h.2.ge
  · subst hr
    obtain rfl := Option.some.inj hopens
    refine ⟨by rw [hlength]; exact Nat.lt_succ_self _, fun p _ hfile => ?_⟩
    obtain hold | ⟨rfl, _⟩ := hfresh p _ hfile
    · exact absurd (lt_of_find_eq_file hold) (lt_irrefl _)
    · exact ⟨hnone, List.mem_cons_self⟩
  · obtain heq | hmem := List.mem_cons.mp hmem
    · obtain ⟨rfl, hsame⟩ := Prod.mk.inj heq
      obtain rfl := Op.create_new.inj hsame
      exact .inr ⟨rfl, hnone, _, by rw [hfind, if_pos rfl]⟩
    · exact .inl hmem

theorem Kept.create {path : Path} {r : Except IoError Nat} (hone : OneName P w.fs) (hpath : ¬ P path)
    (h : apply who (.create path) choice w = some (r, w')) : Kept P who held (.create path) r w w' := by
  refine .of_attempt hone h (fun e inode hr => by simp [hr, Op.opens, Except.toOption]) fun inode fs hcreate hr => ?_
  obtain ⟨_, hcase, hfind, _, hcontent⟩ := create_eq_ok hcreate
  have hne : ∀ p, P p → p ≠ path := fun p hp hpath' => hpath (hpath' ▸ hp)
  -- the file that was opened is none of the kept ones
  have hother : ∀ p, P p → w.fs.find p ≠ some (.file inode) := by
    intro p hp hfile
    obtain ⟨hold, _⟩ | ⟨_, rfl, _⟩ := hcase
    · exact hne p hp (hone p path inode hp hfile hold).symm
    · exact absurd (lt_of_find_eq_file hfile) (lt_irrefl _)
  refine .elsewhere hone (fun _ h => by cases h) (fun p hp => .inl (by rw [hfind, if_neg (hne p hp)]))
    (fun q i hq => ?_) ?_ (fun p i hp hfile => hcontent i ?_) fun i hopens => ?_
  · rw [hfind] at hq
    split at hq
    next hq' =>
      obtain rfl := Node.file.inj (Option.some.inj hq)
      obtain ⟨hold, _⟩ | ⟨_, rfl, _⟩ := hcase
      · exact .inr (.inl (hq' ▸ hold))
      · exact .inl le_rfl
    next => exact .inr (.inl hq)
  · obtain ⟨_, hlength⟩ | ⟨_, _, hlength⟩ := hcase <;> omega
  · rintro rfl
    exact hother p hp hfile
  · subst hr
    obtain rfl := Option.some.inj hopens
    refine ⟨?_, fun p hp hfile => ?_⟩
    · obtain ⟨hold, hlength⟩ | ⟨_, rfl, hlength⟩ := hcase
      · rw [hlength]
        exact lt_of_find_eq_file hold
      · omega
    · rw [hfind, if_neg (hne p hp)] at hfile
      exact hother p hp hfile

/-- A sparing call keeps the files at the paths `P`. -/
theorem Op.Spares.kept (hone : OneName P w.fs) (hop : Op.Spares P R held op)
    (h : apply who op choice w = some (r, w')) : Kept P who held op r w w' := by
  have hlook : op.looks = true → Kept P who held op r w w' := by
    intro hlooks
    obtain rfl := apply_looks hlooks h
    refine .same hone fun inode hopens => ?_
    cases op with
    | create => cases hlooks
    | create_new => cases hlooks
    | write => cases hlooks
    | _ => cases hopens
  have hne : ∀ {path}, ¬ P path → ∀ p, P p → p ≠ path := fun hpath p hp hp' => hpath (hp' ▸ hp)
  cases op with
  | path_exists path => exact hlook rfl
  | is_file path => exact hlook rfl
  | is_dir path => exact hlook rfl
  | read path => exact hlook rfl
  | read_dir path => exact hlook rfl
  | create_new path => exact .create_new hone h
  | create path => exact .create hone hop h
  | mkdir path =>
    refine .of_attempt hone h (fun _ _ _ hopens => by cases hopens) fun u fs hmkdir _ => ?_
    obtain ⟨_, hnone, hfind, hcontents⟩ := mkdir_eq_ok (map_eq_ok hmkdir)
    refine .elsewhere hone (fun _ h => by cases h) (fun p _ => ?_) (fun q inode hq => .inr (.inl ?_))
      (by rw [hcontents]) (fun p inode _ _ => content_of_contents_eq hcontents) fun _ hopens => by cases hopens
    · rw [hfind]
      split
      next hp => exact .inr ⟨hp ▸ hnone, rfl⟩
      next => exact .inl rfl
    · rw [hfind] at hq
      split at hq
      · cases hq
      · exact hq
  | write inode offset bytes =>
    obtain ⟨e, rfl, rfl, _⟩ | ⟨count, _, _, _, rfl, rfl⟩ := World.write_eq_some h
    · exact .same hone fun i hopens => ⟨offset, bytes, by rw [hop] at hopens; rw [Option.some.inj hopens], hopens⟩
    · refine ⟨hone, by rw [length_contents_write], fun _ _ _ hfile => hfile, fun _ _ _ hfile => .inl hfile,
        fun p i _ _ => ?_, fun i hopens => .inl ?_, .inr rfl, fun other p _ hmem => ?_⟩
      · by_cases hi : i = inode
        · exact .inr ⟨offset, bytes, by rw [hi]⟩
        · exact .inl (content_write_of_ne hi)
      · exact ⟨offset, bytes, by rw [hop] at hopens; rw [Option.some.inj hopens], hopens⟩
      · obtain heq | hmem := List.mem_cons.mp hmem
        · cases heq
        · exact .inl hmem
  | rename source target =>
    refine .of_attempt hone h (fun _ _ _ hopens => by cases hopens) fun u fs hrename _ => ?_
    obtain ⟨inode, hsource, _, hcontents, hcase⟩ := rename_eq_ok (map_eq_ok hrename)
    refine .elsewhere hone (fun _ h => by cases h) (fun p hp => .inl ?_) (fun q i hq => .inr ?_)
      (by rw [hcontents]) (fun p inode _ _ => content_of_contents_eq hcontents) fun _ hopens => by cases hopens
    · obtain ⟨_, rfl⟩ | ⟨_, hfind⟩ := hcase
      · rfl
      · rw [hfind, if_neg (hne hop.1 p hp), if_neg (hne hop.2 p hp)]
    · obtain ⟨_, rfl⟩ | ⟨_, hfind⟩ := hcase
      · exact .inl hq
      · rw [hfind] at hq
        split at hq
        · cases hq
        · split at hq
          · obtain rfl := Node.file.inj (Option.some.inj hq)
            exact .inr ⟨source, hop.1, hsource⟩
          · exact .inl hq
  | hard_link source target =>
    refine .of_attempt hone h (fun _ _ _ hopens => by cases hopens) fun u fs hlink _ => ?_
    obtain ⟨inode, hsource, _, hcontents, hfind⟩ := hard_link_eq_ok (map_eq_ok hlink)
    refine .elsewhere hone (fun _ h => by cases h) (fun p hp => .inl ?_) (fun q i hq => .inr ?_)
      (by rw [hcontents]) (fun p inode _ _ => content_of_contents_eq hcontents) fun _ hopens => by cases hopens
    · rw [hfind, if_neg (hne hop.2 p hp)]
    · rw [hfind] at hq
      split at hq
      · obtain rfl := Node.file.inj (Option.some.inj hq)
        exact .inr ⟨source, hop.1, hsource⟩
      · exact .inl hq
  | remove_file path =>
    refine .of_attempt hone h (fun _ _ _ hopens => by cases hopens) fun u fs hremove _ => ?_
    obtain ⟨hcontents, hfind⟩ := remove_file_eq_ok (map_eq_ok hremove)
    refine .elsewhere hone (fun _ h => by cases h) (fun p hp => .inl ?_) (fun q i hq => .inr (.inl ?_))
      (by rw [hcontents]) (fun p inode _ _ => content_of_contents_eq hcontents) fun _ hopens => by cases hopens
    · rw [hfind, if_neg (hne hop p hp)]
    · rw [hfind] at hq
      split at hq
      · cases hq
      · exact hq
  | set_permissions path =>
    refine .of_attempt hone h (fun _ _ _ hopens => by cases hopens) fun u fs hsame _ => ?_
    have hfs : fs = w.fs := by
      split at hsame
      · exact (Prod.mk.inj (Except.ok.inj hsame)).2.symm
      · cases hsame
    subst hfs
    exact .elsewhere hone (fun _ h => by cases h) (fun _ _ => .inl rfl) (fun _ _ hq => .inr (.inl hq)) le_rfl
      (fun _ _ _ _ => rfl) fun _ hopens => by cases hopens
  | record event =>
    obtain ⟨rfl, rfl⟩ := Prod.mk.inj (Option.some.inj h)
    exact .elsewhere hone (fun _ h => by cases h) (fun _ _ => .inl rfl) (fun _ _ hq => .inr (.inl hq)) le_rfl
      (fun _ _ _ _ => rfl) fun _ hopens => by cases hopens

end Calls

end posix
