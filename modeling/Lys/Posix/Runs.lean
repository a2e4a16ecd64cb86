import Lys.Effect.Run
import Lys.Posix.Fresh

open rust effect posix Fs

namespace posix

variable {Who Event ε α : Type} {who : Who} {path : Path} {w w' : World Who Event} {choices rest : List Choice}

section Looked

variable {x y z : Prog (Calls Who Event) ε α}

/-- A run that only looked at the file system goes on as another program does. -/
structure Looked (who : Who) (w : World Who Event) (x : Prog (Calls Who Event) ε α) (choices : List Choice)
    (y : Prog (Calls Who Event) ε α) (rest : List Choice) : Prop where
  run_eq : run who x choices w = run who y rest w
  meets_iff : ∀ P : Op Event → Choice → World Who Event → Prop, (∀ op choice w, op.looks = true → P op choice w) →
    (Meets who P x choices w ↔ Meets who P y rest w)

theorem Looked.trans {further : List Choice} (h : Looked who w x choices y rest) (h' : Looked who w y rest z further) :
    Looked who w x choices z further :=
  ⟨h.run_eq.trans h'.run_eq, fun P hP => (h.meets_iff P hP).trans (h'.meets_iff P hP)⟩

/-- One call that looks. -/
theorem Looked.op {op : Op Event} {next : op.Reply → Prog (Calls Who Event) ε α} {out : Outcome ε α}
    (hx : x = .op op next) (hop : op.looks = true) (hout : (run who x choices w).outcome = some out) :
    ∃ choice r rest, apply who op choice w = some (r, w) ∧ Looked who w x choices (next r) rest := by
  subst hx
  cases choices with
  | nil => cases hout
  | cons choice choices =>
    rw [run] at hout
    cases happly : apply who op choice w with
    | none =>
      simp only [happly] at hout
      cases hout
    | some reply =>
      obtain ⟨r, w'⟩ := reply
      obtain rfl := apply_looks hop happly
      refine ⟨choice, r, choices, happly, ?_, fun P hP => ?_⟩
      · rw [run]
        simp only [happly]
      · rw [Meets]
        simp only [happly, hP op choice w' hop, true_and]

/-- A file that was read, or not. -/
theorem Looked.read {next : Except IoError Bytes → Prog (Calls Who Event) ε α} {out : Outcome ε α}
    (hx : x = .op (.read path) next) (hout : (run who x choices w).outcome = some out) :
    (∃ e rest, Looked who w x choices (next (.error e)) rest) ∨
      ∃ bytes rest, w.fs.file path = some bytes ∧ Looked who w x choices (next (.ok bytes)) rest := by
  obtain ⟨choice, r, rest, happly, hlooked⟩ := Looked.op hx rfl hout
  cases r with
  | error e => exact .inl ⟨e, rest, hlooked⟩
  | ok bytes =>
    refine .inr ⟨bytes, rest, ?_, hlooked⟩
    cases choice with
    | proceed => exact Fs.read_eq_ok_iff.mp (Prod.mk.inj (Option.some.inj happly)).1
    | fault => cases happly
    | stores => cases happly
    | lists => cases happly
    | cut => cases happly

end Looked

variable {contents : Bytes} {inode : Nat}

/-- How often a path was opened for writing. -/
def opened [DecidableEq Event] (path : Path) (trace : List (Who × Op Event)) : Nat :=
  trace.countP fun entry => entry.2 = .create path

/-- An operation that opens a path for writing, or writes to a file. -/
def WritesTo (path : Path) (inode : Nat) (op : Op Event) : Prop :=
  op = .create path ∨ ∃ offset bytes, op = .write inode offset bytes

/-- A file was opened for writing at a path, emptied, and holds `bytes` by now. -/
structure Overwritten (who : Who) (path : Path) (w : World Who Event) (inode : Nat) (bytes : Bytes)
    (w' : World Who Event) : Prop where
  named : w.fs.find path = some (.file inode) ∨ w.fs.find path = none ∧ inode = w.fs.contents.length
  find_eq : ∀ q, q ≠ path → w'.fs.find q = w.fs.find q
  content_eq : ∀ i, i ≠ inode → w'.fs.content i = w.fs.content i
  find : w'.fs.find path = some (.file inode)
  content : w'.fs.content inode = bytes
  trace : ∃ calls, w'.trace = calls ++ w.trace ∧ (who, .create path) ∈ calls ∧
    (bytes ≠ [] → ∃ offset stored, (who, .write inode offset stored) ∈ calls) ∧
    ∀ entry ∈ calls, WritesTo path inode entry.2

/-- Writing a file opened its path. -/
theorem Overwritten.opened_lt [DecidableEq Event] {bytes : Bytes} (h : Overwritten who path w inode bytes w') :
    opened path w.trace < opened path w'.trace := by
  obtain ⟨calls, htrace, hcreate, _⟩ := h.trace
  have hpos : 0 < opened path calls := List.countP_pos_iff.mpr ⟨_, hcreate, by simp⟩
  rw [htrace, opened, opened, List.countP_append]
  rw [opened] at hpos
  omega

theorem Overwritten.create {fs : Fs} (h : w.fs.create path = .ok (inode, fs)) :
    Overwritten who path w inode [] ⟨fs, (who, .create path) :: w.trace⟩ := by
  obtain ⟨_, hcase, hfind, hempty, hcontent⟩ := create_eq_ok h
  refine ⟨?_, fun q hq => by rw [hfind, if_neg hq], hcontent, by rw [hfind, if_pos rfl], hempty,
    [(who, .create path)], rfl, List.mem_singleton.mpr rfl, fun hne => absurd rfl hne, fun entry hentry => ?_⟩
  · obtain ⟨hfile, _⟩ | ⟨hnone, hinode, _⟩ := hcase
    · exact .inl hfile
    · exact .inr ⟨hnone, hinode⟩
  · rw [List.mem_singleton.mp hentry]
    exact .inl rfl

theorem Overwritten.stored {k count : Nat} (h : Overwritten who path w inode (contents.take k) w')
    (hle : k + count ≤ contents.length) :
    Overwritten who path w inode (contents.take (k + count)) (w'.stored who inode k contents count) := by
  obtain ⟨calls, htrace, hcreate, _, hcalls⟩ := h.trace
  refine ⟨h.named, h.find_eq, fun i hi => ?_, h.find, content_stored h.find h.content hle,
    (who, .write inode k (contents.drop k)) :: calls, ?_, List.mem_cons_of_mem _ hcreate, fun _ => ?_, ?_⟩
  · rw [← h.content_eq i hi]
    exact content_write_of_ne hi
  · change _ :: w'.trace = _
    rw [htrace, List.cons_append]
  · exact ⟨k, contents.drop k, List.mem_cons_self⟩
  · rintro entry (_ | ⟨_, hentry⟩)
    · exact .inr ⟨_, _, rfl⟩
    · exact hcalls entry hentry

/-- Filling the file. -/
theorem Overwritten.writes {inv Q : World Who Event → Prop} {faultless : Bool}
    (hinv : ∀ k w', Overwritten who path w inode (contents.take k) w' → inv w')
    (hfails : faultless = false → ∀ k w', k < contents.length → Overwritten who path w inode (contents.take k) w' → Q w') :
    Writes who (solo inv faultless) inode contents
      (fun k w' => k ≤ contents.length ∧ Overwritten who path w inode (contents.take k) w') Q :=
  Writes.solo
    (fun k count _ hw' _ _ hle =>
      have hstored := hw'.2.stored hle
      ⟨hinv (k + count) _ hstored, hle, hstored⟩)
    (fun hfault k hk w' hw' _ => hfails hfault k w' hk hw'.2)

section Completes

variable {x : Prog (Calls Who Event) ε α} {post : Outcome ε α → World Who Event → Prop} {bytes : Bytes}

/-- One call that looks. -/
theorem Completes.look {op : Op Event} {next : op.Reply → Prog (Calls Who Event) ε α} (hx : x = .op op next)
    (hop : op.looks = true) (h : ∀ choice r, choice.faultless = true → apply who op choice w = some (r, w) →
      Completes who post (next r) w) : Completes who post x w := by
  subst hx
  refine @Looks.call _ _ _ _ _ _ _ _ _ _ (Looks.solo hop (· = w)) hop next rfl fun w' choice r hw' _ hallowed happly => ?_
  subst hw'
  exact h choice r (hallowed rfl) happly

/-- A file that is there is read. -/
theorem Completes.read {next : Except IoError Bytes → Prog (Calls Who Event) ε α} (hx : x = .op (.read path) next)
    (hfile : w.fs.file path = some bytes) (h : Completes who post (next (.ok bytes)) w) : Completes who post x w := by
  refine Completes.look hx rfl fun choice r hchoice happly => ?_
  cases choice with
  | proceed =>
    obtain ⟨rfl, _⟩ := Prod.mk.inj (Option.some.inj happly)
    rw [Fs.read_eq_ok_iff.mpr hfile]
    exact h
  | fault => cases hchoice
  | stores => cases happly
  | lists => cases happly
  | cut => cases happly

/-- A file is opened where nothing obstructs it. -/
theorem step_overwrite (h : ¬ Obstructed w.fs.view path) :
    Step who (solo (fun _ => True) true) (· = w) (.create path)
      (Replied (fun inode w' => Overwritten who path w inode [] w') fun _ _ => False) := by
  refine Step.solo (by simp) fun w₁ choice r w' hw₁ _ hallowed happly => ⟨trivial, ?_⟩
  subst hw₁
  obtain ⟨e, _, _, herror⟩ | ⟨inode, fs, hcreate, rfl, rfl⟩ := World.attempt_eq_some happly
  · rw [Obstructed, not_or, not_not, view_eq_directory_iff, view_eq_directory_iff] at h
    obtain ⟨made, hmade⟩ := exists_create_eq_ok h.2 h.1
    have hfailed := herror (by rintro rfl; cases hallowed rfl)
    rw [hmade] at hfailed
    cases hfailed
  · exact Overwritten.create hcreate

/-- An open file is filled. -/
theorem Overwritten.fill {start : World Who Event} (h : Overwritten who path start inode [] w) :
    Completes who (fun out w' => out = .done () ∧ Overwritten who path start inode contents w')
      (fs.write_all inode contents.length 0 contents) w := by
  have hwrites := @Overwritten.writes _ _ who path start contents inode (fun _ => True) (fun _ => False) true
    (fun _ _ _ => trivial) nofun
  refine hwrites.write_all (fun w' hw' _ => ?_) (fun _ _ hfalse _ => hfalse.elim) (Nat.zero_le _) (by omega)
    ⟨Nat.zero_le _, h⟩ trivial
  rw [List.take_length] at hw'
  exact ⟨rfl, hw'.2⟩

end Completes

section Stored

/-- How many of the `remaining` bytes the next writes of a process store in a row. -/
def stored_count : Nat → List Choice → Nat
  | remaining, .stores count :: choices =>
    if 0 < count ∧ count ≤ remaining then count + stored_count (remaining - count) choices else 0
  | _, _ => 0

theorem stored_count_le (remaining : Nat) (choices : List Choice) : stored_count remaining choices ≤ remaining := by
  fun_induction stored_count with
  | case1 remaining count choices hcount ih => omega
  | case2 => exact Nat.zero_le _
  | case3 => exact Nat.zero_le _

/-- Writing to an open file gets as far as bytes are stored, and is done with all of them. -/
theorem run_write_all {T : Nat → World Who Event → Prop} {k fuel : Nat}
    (hstored : ∀ k count w, T k w → k + count ≤ contents.length → T (k + count) (w.stored who inode k contents count))
    (hk : k ≤ contents.length) (hfuel : contents.length ≤ k + fuel) (hw : T k w) :
    T (k + stored_count (contents.length - k) choices)
        (run who (fs.write_all inode fuel k (contents.drop k)) choices w).state ∧
      ((run who (fs.write_all inode fuel k (contents.drop k)) choices w).outcome = some (.done ()) ↔
        k + stored_count (contents.length - k) choices = contents.length) := by
  induction fuel generalizing k choices w with
  | zero =>
    obtain rfl : k = contents.length := by omega
    rw [List.drop_length, Nat.sub_self, fs.write_all, Prog.pure_eq, run_ret,
      Nat.le_zero.mp (stored_count_le 0 choices)]
    exact ⟨hw, by simp⟩
  | succ fuel ih =>
    cases hrest : contents.drop k with
    | nil =>
      obtain rfl : k = contents.length := by
        rw [List.drop_eq_nil_iff] at hrest
        omega
      rw [Nat.sub_self, fs.write_all, Prog.pure_eq, run_ret, Nat.le_zero.mp (stored_count_le 0 choices)]
      exact ⟨hw, by simp⟩
    | cons byte bytes =>
      have hlength := congrArg List.length hrest
      rw [List.length_drop, List.length_cons] at hlength
      have hprogram : fs.write_all inode (fuel + 1) k (byte :: bytes) =
          (.op (.write inode k (byte :: bytes)) fun r => Prog.of_except r >>= fun count =>
            fs.write_all inode fuel (k + count) ((byte :: bytes).drop count) :
            Prog (Calls Who Event) IoError Unit) := rfl
      -- a call that stores nothing leaves the world as it is
      have hstuck : ∀ {ending : Ending (Calls Who Event) IoError Unit}, stored_count (contents.length - k) choices = 0 →
          ending.state = w → ending.outcome ≠ some (.done ()) → T (k + stored_count (contents.length - k) choices) ending.state ∧
            (ending.outcome = some (.done ()) ↔ k + stored_count (contents.length - k) choices = contents.length) := by
        intro ending hnothing hstate hout
        rw [hnothing, hstate]
        exact ⟨hw, iff_of_false hout (by omega)⟩
      rw [hprogram]
      cases choices with
      | nil => exact hstuck rfl rfl (by rintro ⟨⟩)
      | cons choice choices =>
        rw [run]
        cases choice with
        | stores count =>
          by_cases hcount : 0 < count ∧ count ≤ contents.length - k
          · have happly : apply who (.write inode k (byte :: bytes)) (.stores count) w =
                some (.ok count, w.stored who inode k contents count) := by
              rw [World.stored, hrest]
              exact if_pos ⟨hcount.1, by rw [List.length_cons]; omega⟩
            simp only [happly, Prog.of_except_ok, Prog.ret_bind]
            rw [stored_count, if_pos hcount, ← hrest, List.drop_drop, ← Nat.add_assoc, Nat.sub_sub]
            exact ih (by omega) (by omega) (hstored k count w hw (by omega))
          · have happly : apply who (.write inode k (byte :: bytes)) (.stores count) w = none := by
              refine if_neg fun h => hcount ⟨h.1, ?_⟩
              rw [List.length_cons] at h
              omega
            simp only [happly]
            exact @hstuck ⟨none, .stores count :: choices, w⟩ (by rw [stored_count, if_neg hcount]) rfl (by simp)
        | fault => exact hstuck rfl rfl (by rintro ⟨⟩)
        | proceed => exact hstuck rfl rfl (by rintro ⟨⟩)
        | lists => exact hstuck rfl rfl (by rintro ⟨⟩)
        | cut => exact hstuck rfl rfl (by rintro ⟨⟩)

theorem neverPanics_write_all (inode fuel offset : Nat) (bytes : Bytes) :
    NeverPanics (fs.write_all inode fuel offset bytes : Prog (Calls Who Event) IoError Unit) := by
  induction fuel generalizing offset bytes with
  | zero => cases bytes <;> trivial
  | succ fuel ih =>
    cases bytes with
    | nil => trivial
    | cons byte bytes => exact fun r => (neverPanics_of_except r).bind fun count => ih _ _

theorem neverPanics_write (path : Path) (contents : Bytes) :
    NeverPanics (fs.write path contents : Prog (Calls Who Event) IoError Unit) :=
  fun r => (neverPanics_of_except r).bind fun inode => neverPanics_write_all inode _ _ _

end Stored

section Faults

variable {P : Op Event → Choice → World Who Event → Prop} {R : List (Who × Op Event) → Prop} {F G Q : Prop}

/-- A condition that a failed write meets exactly where `F` holds, and one that stores all that is left
exactly where `G` holds, as long as `R` holds of the calls so far. -/
structure Forgives (who : Who) (P : Op Event → Choice → World Who Event → Prop) (R : List (Who × Op Event) → Prop)
    (F G : Prop) : Prop where
  write_iff : ∀ inode offset bytes choice (w : World Who Event), R w.trace →
    (P (.write inode offset bytes) choice w ↔ (choice = .fault → F) ∧ (choice = .stores bytes.length → G))
  trace : ∀ inode offset bytes trace, R trace → R ((who, .write inode offset bytes) :: trace)

theorem Forgives.meets_write_all_iff (h : Forgives who P R F G) {fuel offset : Nat} {bytes : Bytes}
    {out : Outcome IoError Unit} (hfuel : bytes.length ≤ fuel) (hw : R w.trace)
    (hout : (run who (fs.write_all inode fuel offset bytes) choices w).outcome = some out) :
    Meets who P (fs.write_all inode fuel offset bytes) choices w ↔
      (out ≠ .done () → F) ∧ (bytes ≠ [] → out = .done () → G) := by
  induction fuel generalizing offset bytes choices w with
  | zero =>
    obtain rfl := List.length_eq_zero_iff.mp (Nat.le_zero.mp hfuel)
    rw [fs.write_all, Prog.pure_eq, run_ret] at hout
    simp [fs.write_all, ← Option.some.inj hout]
  | succ fuel ih =>
    cases bytes with
    | nil =>
      rw [fs.write_all, Prog.pure_eq, run_ret] at hout
      simp [fs.write_all, ← Option.some.inj hout]
    | cons byte bytes =>
      cases choices with
      | nil => cases hout
      | cons choice choices =>
        have hprogram : fs.write_all inode (fuel + 1) offset (byte :: bytes) =
            (.op (.write inode offset (byte :: bytes)) fun r => Prog.of_except r >>= fun count =>
              fs.write_all inode fuel (offset + count) ((byte :: bytes).drop count) :
              Prog (Calls Who Event) IoError Unit) := rfl
        rw [hprogram, run] at hout
        rw [hprogram, Meets, h.write_iff _ _ _ _ _ hw]
        cases happly : apply who (.write inode offset (byte :: bytes)) choice w with
        | none =>
          simp only [happly] at hout
          cases hout
        | some reply =>
          simp only [happly] at hout ⊢
          obtain ⟨e, hreply, _, rfl⟩ | ⟨count, rfl, hpos, hcount, hreply, hw'⟩ := World.write_eq_some happly
          · rw [hreply, Prog.of_except_error, Prog.fail_bind, run_fail] at hout
            rw [hreply, Prog.of_except_error, Prog.fail_bind]
            simp [← Option.some.inj hout]
          · have hw'' : R reply.2.trace := hw' ▸ h.trace _ _ _ _ hw
            rw [hreply, Prog.of_except_ok, Prog.ret_bind] at hout ⊢
            rw [ih (by rw [List.length_drop]; omega) hw'' hout]
            by_cases hlast : count = (byte :: bytes).length
            · -- all that is left is stored, and the writing is done
              have hnil : (byte :: bytes).drop count = [] := List.drop_eq_nil_iff.mpr hlast.ge
              have hdone : out = .done () := by
                rw [hnil, fs.write_all, Prog.pure_eq, run_ret] at hout
                exact (Option.some.inj hout).symm
              simp [hdone, hlast]
            · have hmore : (byte :: bytes).drop count ≠ [] := fun hnil =>
                hlast (le_antisymm hcount (List.drop_eq_nil_iff.mp hnil))
              have hshort : ¬ count = bytes.length + 1 := hlast
              simp [hmore, hshort]

/-- How `std::fs::write` ends: before anything was opened, in the middle of the contents, or
with all of them. -/
theorem Forgives.run_write (h : Forgives who P R F G) (hcreate : ∀ choice, P (.create path) choice w ↔ Q)
    (hopened : R ((who, .create path) :: w.trace)) {out : Outcome IoError Unit}
    (hout : (run who (fs.write path contents) choices w).outcome = some out) :
    (∃ e, out = .failed e ∧ (run who (fs.write path contents) choices w).state = w ∧
      (Meets who P (fs.write path contents) choices w ↔ Q)) ∨
    (∃ e inode k, out = .failed e ∧
      Overwritten who path w inode (contents.take k) (run who (fs.write path contents) choices w).state ∧
      (Meets who P (fs.write path contents) choices w ↔ Q ∧ F)) ∨
    ∃ inode, out = .done () ∧ Overwritten who path w inode contents (run who (fs.write path contents) choices w).state ∧
      (Meets who P (fs.write path contents) choices w ↔ Q ∧ (contents ≠ [] → G)) := by
  have hprogram : fs.write path contents = (.op (.create path) fun r => Prog.of_except r >>= fun inode =>
      fs.write_all inode contents.length 0 contents : Prog (Calls Who Event) IoError Unit) := rfl
  cases choices with
  | nil => cases hout
  | cons choice choices =>
    rw [hprogram, run] at hout ⊢
    rw [Meets, hcreate]
    cases happly : apply who (.create path) choice w with
    | none =>
      simp only [happly] at hout
      cases hout
    | some made =>
      simp only [happly] at hout ⊢
      obtain ⟨e, hreply, hsame, _⟩ | ⟨inode, opened, hok, hreply, hw'⟩ := World.attempt_eq_some happly
      · rw [hreply, Prog.of_except_error, Prog.fail_bind, run_fail] at hout ⊢
        exact .inl ⟨e, (Option.some.inj hout).symm, hsame, by simp⟩
      · rw [hreply, Prog.of_except_ok, Prog.ret_bind] at hout ⊢
        have hmeets := h.meets_write_all_iff le_rfl (hw' ▸ hopened) hout
        have hemptied : Overwritten who path w inode [] made.2 := hw' ▸ Overwritten.create hok
        have hkeeps : Keeps who (solo (fun _ => True) false)
            (fun out w' => (∃ e, out = .failed e) ∧ (∃ k, Overwritten who path w inode (contents.take k) w') ∨
              out = .done () ∧ Overwritten who path w inode contents w')
            (fs.write_all inode contents.length 0 (contents.drop 0)) made.2 := by
          refine (Overwritten.writes (Q := fun w' => ∃ k, Overwritten who path w inode (contents.take k) w')
            (fun _ _ _ => trivial) fun _ k w' _ h => ⟨k, h⟩).write_all (fun w' hw' _ => ?_) (fun w' e hQ _ => ?_)
            (Nat.zero_le _) (by omega) ⟨Nat.zero_le _, hemptied⟩ trivial
          · rw [List.take_length] at hw'
            exact .inr ⟨rfl, hw'.2⟩
          · exact .inl ⟨⟨e, rfl⟩, hQ⟩
        obtain ⟨⟨e, rfl⟩, k, htorn⟩ | ⟨rfl, hfull⟩ := (run_solo hkeeps trivial).2 out hout
        · exact .inr (.inl ⟨e, inode, k, rfl, htorn, by simp [hmeets]⟩)
        · exact .inr (.inr ⟨inode, rfl, hfull, by simp [hmeets]⟩)

/-- A file that is there is removed unless the call fails. -/
theorem run_remove_file {out : Outcome IoError Unit} (hfind : w.fs.find path = some (.file inode))
    (hremove : ∀ choice, P (.remove_file path) choice w → choice ≠ .fault)
    (hmeets : Meets who P (fs.remove_file path) choices w)
    (hout : (run who (fs.remove_file path) choices w).outcome = some out) :
    ∃ fs', w.fs.remove_file path = .ok fs' ∧ out = .done () ∧
      (run who (fs.remove_file path) choices w).state = ⟨fs', (who, .remove_file path) :: w.trace⟩ := by
  have hprogram : fs.remove_file path =
      (.op (.remove_file path) Prog.of_except : Prog (Calls Who Event) IoError Unit) := rfl
  obtain ⟨fs', hfs'⟩ := exists_remove_file_eq_ok hfind
  cases choices with
  | nil => cases hout
  | cons choice choices =>
    rw [hprogram, run] at hout ⊢
    rw [hprogram, Meets] at hmeets
    cases happly : apply who (.remove_file path) choice w with
    | none =>
      simp only [happly] at hout
      cases hout
    | some removed =>
      simp only [happly] at hout hmeets ⊢
      obtain ⟨e, _, _, herror⟩ | ⟨_, fs'', hok, hreply, hstate⟩ := World.attempt_eq_some happly
      · have hfailed := herror (hremove choice hmeets.1)
        rw [hfs'] at hfailed
        cases hfailed
      · rw [hfs'] at hok
        obtain ⟨_, hpair⟩ := Prod.mk.inj (Except.ok.inj hok)
        rw [hreply, Prog.of_except_ok, run_ret] at hout ⊢
        exact ⟨fs', hfs', (Option.some.inj hout).symm, hpair ▸ hstate⟩

end Faults

end posix
